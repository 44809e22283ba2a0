import WisCam.Message.Building
import WisCam.Server.Replies

/-!
# What is queued on a connection

Three things are put into the send ring of an RTSP connection: interleaved frames by
`interleave_send`, replies by `tcp_send_pmsg`, and the session description that follows the reply to
a DESCRIBE. None of them looks at what `send_data` returns; each relies on a comparison with
`avail_send_buf` made before. `sent_units_whole` follows any sequence of these calls, with the
socket taking bytes in between, and shows that the stream they make can be cut into the frames and
replies that were accepted, by the rules that a reader of the stream has: a frame by the length
behind its dollar sign, and a reply at its first blank line with as many bytes after it as its
Content-Length says.

`interleave_send` adds up the lengths of its buffers in an int, so this takes lists of less than
2 GiB in all.
-/

set_option autoImplicit false

namespace WisCam.Server

open Foundations Message Connection Program List

/-! ### Units of the stream -/

/-- A frame with its channel and its payload, or a reply with its head and its body. -/
inductive SendUnit
  | frame (chan : UInt8) (payload : Bytes)
  | reply (head body : Bytes)
  deriving DecidableEq, Repr

/-- The bytes of a unit. -/
def SendUnit.bytes : SendUnit → Bytes
  | .frame chan payload => 36 :: chan :: (put16 payload.length ++ payload)
  | .reply head body => head ++ body

/-- The number of bytes after the head of a reply. -/
def bodyLength (head : Bytes) : ℕ :=
  match strstr (ascii "\r\nContent-Length: ") head with
  | some at' => digitsValue 0 ((head.drop (at' + 18)).takeWhile isDigit)
  | none => 0

/-- The first unit of a stream, and what comes after it. -/
def cutUnit (stream : Bytes) : Option (SendUnit × Bytes) :=
  if stream.head? = some 36 then
    match stream with
    | _ :: chan :: high :: low :: rest =>
      if get16 high low ≤ rest.length then
        some (.frame chan (rest.take (get16 high low)), rest.drop (get16 high low))
      else none
    | _ => none
  else
    match strstr blankLine stream with
    | some line =>
      let head := stream.take (line + 4)
      let rest := stream.drop (line + 4)
      if bodyLength head ≤ rest.length then
        some (.reply head (rest.take (bodyLength head)), rest.drop (bodyLength head))
      else none
    | none => none

/-- The units of a stream, if it ends with a whole one. -/
def cutUnits : ℕ → Bytes → Option (List SendUnit)
  | _, [] => some []
  | 0, _ :: _ => none
  | fuel + 1, stream => do
    let (unit, rest) ← cutUnit stream
    let units ← cutUnits fuel rest
    return unit :: units

/-! ### Cutting -/

/-- A text that starts with a line end is found behind a line or further on. -/
theorem strstr_line {line : Bytes} (hline : OneLine line) (tail rest : Bytes) :
    strstr (13 :: 10 :: tail) (line ++ 13 :: 10 :: rest) =
      if tail <+: rest then some line.length
      else (strstr (13 :: 10 :: tail) rest).map (· + (line.length + 2)) := by
  have hcr : (13 : UInt8) ∉ line := fun h ↦ hline 13 h (Or.inr (Or.inl rfl))
  have hhere : (13 :: 10 :: tail).isPrefixOf (13 :: 10 :: rest) = true ↔ tail <+: rest := by
    rw [List.isPrefixOf_iff_prefix, cons_prefix_cons, cons_prefix_cons]
    exact ⟨fun h ↦ h.2.2, fun h ↦ ⟨rfl, rfl, h⟩⟩
  rw [strstr_skip hcr, strstr]
  by_cases hrest : tail <+: rest
  · rw [if_pos (hhere.mpr hrest), if_pos hrest, Option.map_some, Nat.zero_add]
  · have hnext : strstr (13 :: 10 :: tail) (10 :: rest) =
        (strstr (13 :: 10 :: tail) rest).map (· + 1) :=
      @strstr_skip 13 (10 :: tail) [10] (by decide) rest
    rw [if_neg (mt hhere.mp hrest), if_neg hrest, hnext, Option.map_map, Option.map_map]
    congr 1
    funext index
    simp only [Function.comp_apply]
    omega

/-- Lines, each with its end. -/
def linesText (lines : List Bytes) : Bytes := lines.flatMap (· ++ [13, 10])

theorem linesText_cons (line : Bytes) (lines : List Bytes) (back : Bytes) :
    linesText (line :: lines) ++ back = line ++ 13 :: 10 :: (linesText lines ++ back) := by
  simp only [linesText, flatMap_cons, append_assoc, cons_append, nil_append]

theorem length_linesText_cons (line : Bytes) (lines : List Bytes) :
    (linesText (line :: lines)).length = line.length + 2 + (linesText lines).length := by
  simp only [linesText, flatMap_cons, length_append, length_cons, length_nil]

/-- A text of at least one line has room for a line end. -/
theorem two_le_length_linesText {lines : List Bytes} (hne : lines ≠ []) :
    2 ≤ (linesText lines).length := by
  cases lines with
  | nil => exact absurd rfl hne
  | cons line lines =>
    rw [length_linesText_cons]
    omega

/-- A text on one line stands at the start of a line only if it fits into it. -/
theorem prefix_of_line {text line rest : Bytes} (htext : (13 : UInt8) ∉ text)
    (hstarts : text <+: line ++ 13 :: rest) : text <+: line := by
  rcases Nat.lt_or_ge line.length text.length with hlt | hle
  · have hend : line ++ [13] <+: line ++ 13 :: rest := ⟨rest, by simp⟩
    have hline : line ++ [13] <+: text := by
      refine prefix_of_prefix_length_le hend hstarts ?_
      rw [length_append, length_singleton]
      exact hlt
    exact absurd (hline.subset (mem_append_right _ mem_cons_self)) htext
  · exact prefix_of_prefix_length_le hstarts (prefix_append _ _) hle

/-- The first blank line is the one behind the last of the lines. -/
theorem strstr_blankLine {lines : List Bytes} (hne : lines ≠ [])
    (hlines : ∀ line ∈ lines, OneLine line ∧ line ≠ []) (more : Bytes) :
    strstr blankLine (linesText lines ++ 13 :: 10 :: more) =
      some ((linesText lines).length - 2) := by
  induction lines with
  | nil => exact absurd rfl hne
  | cons line lines ih =>
    obtain ⟨hline, hlater⟩ := forall_mem_cons.mp hlines
    rw [linesText_cons, show blankLine = 13 :: 10 :: [13, 10] from rfl, strstr_line hline.1,
      length_linesText_cons]
    cases lines with
    | nil =>
      rw [if_pos ⟨more, rfl⟩]
      simp [linesText]
    | cons next lines =>
      have hnext := (forall_mem_cons.mp hlater).1
      have hnot : ¬ [13, 10] <+: linesText (next :: lines) ++ 13 :: 10 :: more := by
        rw [linesText_cons]
        cases hbytes : next with
        | nil => exact absurd hbytes hnext.2
        | cons b bytes =>
          rw [cons_append, cons_prefix_cons]
          rintro ⟨hb, -⟩
          exact hnext.1 b (hbytes ▸ mem_cons_self) (Or.inr (Or.inl hb.symm))
      have hlater' := ih (cons_ne_nil _ _) hlater
      have hpos := two_le_length_linesText (cons_ne_nil next lines)
      rw [if_neg hnot, show (13 : UInt8) :: 10 :: [13, 10] = blankLine from rfl, hlater',
        Option.map_some]
      congr 1
      omega

/-- What a Content-Length line starts with. -/
def lengthLabel : Bytes := ascii "Content-Length: "

theorem bodyLength_eq (head : Bytes) :
    bodyLength head = match strstr (13 :: 10 :: lengthLabel) head with
      | some at' => digitsValue 0 ((head.drop (at' + 18)).takeWhile isDigit)
      | none => 0 := rfl

/-- Behind lines that do not start with the label, the search for it goes on. -/
theorem strstr_lengthLabel {lines : List Bytes} (hne : lines ≠ [])
    (hlines : ∀ line ∈ lines, OneLine line) (hlabel : ∀ line ∈ lines.tail, ¬ lengthLabel <+: line)
    (rest : Bytes) :
    strstr (13 :: 10 :: lengthLabel) (linesText lines ++ rest) =
      if lengthLabel <+: rest then some ((linesText lines).length - 2)
      else (strstr (13 :: 10 :: lengthLabel) rest).map (· + (linesText lines).length) := by
  have hplain : (13 : UInt8) ∉ lengthLabel := by decide
  induction lines with
  | nil => exact absurd rfl hne
  | cons line lines ih =>
    obtain ⟨hline, hlater⟩ := forall_mem_cons.mp hlines
    rw [linesText_cons, strstr_line hline, length_linesText_cons]
    cases lines with
    | nil => simp [linesText]
    | cons next lines =>
      have hnot : ¬ lengthLabel <+: linesText (next :: lines) ++ rest := by
        rw [linesText_cons]
        exact fun h ↦ hlabel next mem_cons_self (prefix_of_line hplain h)
      have hpos := two_le_length_linesText (cons_ne_nil next lines)
      rw [if_neg hnot, ih (cons_ne_nil _ _) hlater
        fun line hline ↦ hlabel line (mem_cons_of_mem _ hline)]
      split_ifs
      · rw [Option.map_some]
        congr 1
        omega
      · rw [Option.map_map]
        congr 1
        funext index
        simp only [Function.comp_apply]
        omega

/-- A head without a Content-Length line has no body. -/
theorem bodyLength_lines {lines : List Bytes} (hne : lines ≠ [])
    (hlines : ∀ line ∈ lines, OneLine line)
    (hlabel : ∀ line ∈ lines.tail, ¬ lengthLabel <+: line) :
    bodyLength (linesText lines ++ [13, 10]) = 0 := by
  rw [bodyLength_eq, strstr_lengthLabel hne hlines hlabel, if_neg (by decide),
    show strstr (13 :: 10 :: lengthLabel) [13, 10] = none by decide]
  rfl

/-- A head with a Content-Length line at its end has a body of that length. -/
theorem bodyLength_lines_length {lines : List Bytes} (hne : lines ≠ [])
    (hlines : ∀ line ∈ lines, OneLine line)
    (hlabel : ∀ line ∈ lines.tail, ¬ lengthLabel <+: line) (len : ℕ) :
    bodyLength (linesText lines ++ (lengthLabel ++ decimal len ++ [13, 10, 13, 10])) = len := by
  have hpos := two_le_length_linesText hne
  have hdrop : (linesText lines ++ (lengthLabel ++ decimal len ++ [13, 10, 13, 10])).drop
      ((linesText lines).length - 2 + 18) = decimal len ++ [13, 10, 13, 10] := by
    have hindex : (linesText lines ++ lengthLabel).length = (linesText lines).length - 2 + 18 := by
      have hlabelLength : lengthLabel.length = 16 := by decide
      rw [length_append]
      omega
    rw [append_assoc, ← append_assoc]
    exact drop_left' hindex
  have hdigits : (decimal len ++ [13, 10, 13, 10]).takeWhile isDigit = decimal len := by
    refine takeWhile_append_stop (fun b hb ↦ isDigit_of_mem_decimal hb) fun b hb ↦ ?_
    obtain rfl := Option.some.inj hb
    decide
  rw [bodyLength_eq, strstr_lengthLabel hne hlines hlabel,
    if_pos ⟨decimal len ++ [13, 10, 13, 10], by rw [append_assoc]⟩]
  dsimp only
  rw [hdrop, hdigits, digitsValue_decimal]

/-! ### Replies -/

/-- A header that prints as one line, and not as a Content-Length line. -/
def PlainHeader (header : Bytes × Bytes) : Prop :=
  OneLine header.1 ∧ OneLine header.2 ∧ ¬ lengthLabel <+: header.1 ++ ascii ": " ++ header.2

/-- A reply whose strings are all on one line, as the handlers build them. -/
def PlainReply (m : Pmsg) : Prop :=
  ∃ proto code reason, m.IsResponse proto code reason m.headers ∧ OneLine proto ∧
    proto.head? ≠ some 36 ∧ OneLine reason ∧ ∀ header ∈ m.headers, PlainHeader header

theorem oneLine_append {a b : Bytes} (ha : OneLine a) (hb : OneLine b) : OneLine (a ++ b) := by
  intro byte hbyte
  rcases mem_append.mp hbyte with h | h
  · exact ha byte h
  · exact hb byte h

theorem oneLine_ascii_colon : OneLine (ascii ": ") := by decide

theorem oneLine_space : OneLine [32] := by decide

/-- The line of a header without its end. -/
def headerText (header : Bytes × Bytes) : Bytes := header.1 ++ ascii ": " ++ header.2

theorem flatMap_headerLine (headers : List (Bytes × Bytes)) :
    headers.flatMap headerLine = linesText (headers.map headerText) := by
  rw [linesText, flatMap_map]
  rfl

variable {m : Pmsg}

/-- A printed reply is its lines, a Content-Length line if it has a body, and a blank line. -/
theorem exists_lines (hplain : PlainReply m) :
    ∃ lines : List Bytes, lines ≠ [] ∧ (∀ line ∈ lines, OneLine line ∧ line ≠ []) ∧
      (∀ line ∈ lines.tail, ¬ lengthLabel <+: line) ∧
      (∀ line, lines.head? = some line → line.head? ≠ some 36) ∧
      ∀ len, printedReply m len = some (linesText lines ++
        match len with
        | some len => lengthLabel ++ decimal len ++ [13, 10, 13, 10]
        | none => [13, 10]) := by
  obtain ⟨proto, code, reason, ⟨hproto, ⟨reasonAt, hsl, hreason⟩, -⟩, hprotoLine, hprotoStart,
    hreasonLine, hheaders⟩ := hplain
  let first := proto ++ [32] ++ decimal code ++ [32] ++ reason
  have hfirst : OneLine first :=
    oneLine_append (oneLine_append (oneLine_append (oneLine_append hprotoLine oneLine_space)
      (isDigit_oneLine fun _ ↦ isDigit_of_mem_decimal)) oneLine_space) hreasonLine
  refine ⟨first :: m.headers.map headerText, cons_ne_nil _ _, ?_, ?_, ?_, fun len ↦ ?_⟩
  · refine forall_mem_cons.mpr ⟨⟨hfirst, by simp [first]⟩, fun line hline ↦ ?_⟩
    obtain ⟨header, hheader, rfl⟩ := mem_map.mp hline
    obtain ⟨hname, hvalue, -⟩ := hheaders header hheader
    exact ⟨oneLine_append (oneLine_append hname oneLine_ascii_colon) hvalue,
      by simp [headerText, ascii]⟩
  · intro line hline
    obtain ⟨header, hheader, rfl⟩ := mem_map.mp hline
    exact (hheaders header hheader).2.2
  · intro line hline
    obtain rfl := Option.some.inj hline
    cases hbytes : proto with
    | nil => simp [first, hbytes]
    | cons b bytes =>
      rw [hbytes] at hprotoStart
      simpa [first, hbytes] using hprotoStart
  · have hlines : linesText (first :: m.headers.map headerText) =
        first ++ [13, 10] ++ m.headers.flatMap headerLine := by
      rw [flatMap_headerLine, linesText, flatMap_cons]
      rfl
    rw [printedReply, hsl]
    dsimp only
    rw [printPmsg_eq hproto hreason, hlines, flatMap_append]
    cases len with
    | none => simp [contentLength, first, ascii]
    | some len =>
      simp [contentLength, first, headerLine, lengthLabel, ascii]

/-- A CSeq header with a value on one line is plain. -/
theorem plainHeader_cseq {header : Bytes × Bytes}
    (hname : sameNoCase header.1 (ascii "CSeq") = true) (hvalue : OneLine header.2) :
    PlainHeader header := by
  have hlower : header.1.map lower = ascii "cseq" := (beq_iff_eq.mp hname).trans (by decide)
  have hplain (b : UInt8) : lower b ∈ ascii "cseq" → ¬ EndsLine b := by
    rintro hb (rfl | rfl | rfl) <;> exact absurd hb (by decide)
  refine ⟨fun b hb ↦ hplain b ?_, hvalue, ?_⟩
  · rw [← hlower]
    exact mem_map_of_mem hb
  · rintro ⟨rest, hrest⟩
    have hfour : header.1.length = 4 := by
      have hlength := congrArg List.length hlower
      rw [length_map] at hlength
      exact hlength
    have hstart : header.1 = ascii "Cont" := by
      have htake := congrArg (List.take 4) hrest
      rw [append_assoc, take_left' hfour] at htake
      exact htake.symm
    rw [hstart] at hlower
    exact absurd hlower (by decide)

theorem plainReply_of_reads {code : ℕ} {reason : Bytes} {headers : List (Bytes × Bytes)}
    (hreads : m.Reads (ascii "RTSP/1.0") code reason headers) (hreason : OneLine reason)
    (hheaders : ∀ header ∈ headers, PlainHeader header) : PlainReply m := by
  have hproto : OneLine (ascii "RTSP/1.0") := by decide
  have hall := hreads.response.2.2
  rw [← hall] at hheaders
  exact ⟨ascii "RTSP/1.0", code, reason, ⟨hreads.response.1, hreads.response.2.1, rfl⟩, hproto,
    by decide, hreason, hheaders⟩

theorem plainHeaders_rtspCreateReply {d : Bytes} {req : Req} {ret : ℕ}
    (hparse : parsePmsg d = .ok (req.msg, ret)) (code : ℕ) (reason : Bytes) :
    ∀ header ∈ kept (blankReply code reason) (cseqHeaders req), PlainHeader header := by
  intro header hheader
  have hmem := (kept_sublist _ _).subset hheader
  obtain ⟨hall, hname⟩ := mem_filter.mp hmem
  exact plainHeader_cseq hname (oneLine_of_parsePmsg hparse hall)

/-- What `rtsp_create_reply` makes for a request that was parsed is plain. -/
theorem plainReply_rtspCreateReply {d reason : Bytes} {req : Req} {ret : ℕ}
    (hparse : parsePmsg d = .ok (req.msg, ret)) (code : ℕ) (hreason : ShortReason reason)
    (hline : OneLine reason) : PlainReply (rtspCreateReply req code reason) :=
  plainReply_of_reads (reads_rtspCreateReply req code hreason) hline
    (plainHeaders_rtspCreateReply hparse code reason)

theorem plainReply_options : ∃ m ret,
    parsePmsg (ascii "OPTIONS * RTSP/1.0\r\nCSeq: 1\r\n\r\n") = .ok (m, ret) ∧
      PlainReply (rtspCreateReply ⟨0, m, [], []⟩ 200 (ascii "OK")) := by
  cases hparse : parsePmsg (ascii "OPTIONS * RTSP/1.0\r\nCSeq: 1\r\n\r\n") with
  | ok r =>
    exact ⟨_, _, rfl, plainReply_rtspCreateReply hparse 200 ⟨by decide, by decide⟩ (by decide)⟩
  | error stop =>
    have hok : (parsePmsg (ascii "OPTIONS * RTSP/1.0\r\nCSeq: 1\r\n\r\n")).isOk = true := by
      decide +kernel
    rw [hparse] at hok
    cases hok

/-! ### Whole units -/

/-- The unit is cut off the front of any stream that starts with its bytes. -/
def SendUnit.Whole (unit : SendUnit) : Prop :=
  ∀ rest, cutUnit (unit.bytes ++ rest) = some (unit, rest)

theorem whole_frame (chan : UInt8) {payload : Bytes} (hpayload : payload.length < 65536) :
    (SendUnit.frame chan payload).Whole := by
  intro rest
  have hlength := get16_put16 hpayload
  have hroom : payload.length ≤ (payload ++ rest).length := by
    rw [length_append]
    exact Nat.le_add_right _ _
  have hbytes : (SendUnit.frame chan payload).bytes ++ rest =
      36 :: chan :: UInt8.ofNat (payload.length / 256) :: UInt8.ofNat payload.length ::
        (payload ++ rest) := by
    rfl
  rw [hbytes]
  unfold cutUnit
  rw [if_pos List.head?_cons]
  dsimp only
  rw [hlength, if_pos hroom, take_left, drop_left]

/-- What the head of a reply says about itself. -/
theorem printedReply_spec (hplain : PlainReply m) {len : Option ℕ} {text : Bytes}
    (htext : printedReply m len = some text) :
    bodyLength text = len.getD 0 ∧
      ∃ lines, lines ≠ [] ∧ (∀ line ∈ lines, OneLine line ∧ line ≠ []) ∧
        (∀ line, lines.head? = some line → line.head? ≠ some 36) ∧
        text = linesText lines ++ [13, 10] := by
  obtain ⟨lines, hne, hlines, hlabel, hstart, hprinted⟩ := exists_lines hplain
  rw [hprinted] at htext
  obtain rfl := Option.some.inj htext
  have honeLine : ∀ line ∈ lines, OneLine line := fun line hline ↦ (hlines line hline).1
  cases len with
  | none => exact ⟨bodyLength_lines hne honeLine hlabel, lines, hne, hlines, hstart, rfl⟩
  | some len =>
    refine ⟨bodyLength_lines_length hne honeLine hlabel len, lines ++ [lengthLabel ++ decimal len],
      append_ne_nil_of_left_ne_nil hne _, ?_, ?_, ?_⟩
    · intro line hline
      rcases mem_append.mp hline with hline | hline
      · exact hlines line hline
      · rw [mem_singleton.mp hline]
        refine ⟨oneLine_append ?_ (isDigit_oneLine fun _ ↦ isDigit_of_mem_decimal),
          by simp [lengthLabel, ascii]⟩
        decide
    · intro line hline
      refine hstart line ?_
      rwa [List.head?_append_of_ne_nil _ hne] at hline
    · simp [linesText]

theorem whole_reply (hplain : PlainReply m) {len : Option ℕ} {text body : Bytes}
    (htext : printedReply m len = some text) (hbody : body.length = len.getD 0) :
    (SendUnit.reply text body).Whole := by
  intro rest
  obtain ⟨hlength, lines, hne, hlines, hstart, rfl⟩ := printedReply_spec hplain htext
  have hbytes : (SendUnit.reply (linesText lines ++ [13, 10]) body).bytes ++ rest =
      linesText lines ++ 13 :: 10 :: (body ++ rest) := by
    simp [SendUnit.bytes]
  have hdollar : (linesText lines ++ 13 :: 10 :: (body ++ rest)).head? ≠ some 36 := by
    cases lines with
    | nil => exact absurd rfl hne
    | cons line lines =>
      have hfirst := hstart line rfl
      have hline := (hlines line mem_cons_self).2
      rw [linesText_cons]
      cases line with
      | nil => exact absurd rfl hline
      | cons b bytes => exact hfirst
  have hpos := two_le_length_linesText hne
  have hend : (linesText lines ++ [13, 10]).length = (linesText lines).length - 2 + 4 := by
    rw [length_append, length_cons, length_singleton]
    omega
  have hsplit : linesText lines ++ 13 :: 10 :: (body ++ rest) =
      (linesText lines ++ [13, 10]) ++ (body ++ rest) := by
    simp
  have hroom : bodyLength (linesText lines ++ [13, 10]) ≤ (body ++ rest).length := by
    rw [hlength, ← hbody, length_append]
    exact Nat.le_add_right _ _
  rw [hbytes]
  unfold cutUnit
  rw [if_neg hdollar, strstr_blankLine hne hlines]
  dsimp only
  rw [hsplit, ← hend, take_left, drop_left, if_pos hroom, hlength, ← hbody, take_left, drop_left]

/-- A stream of whole units is cut into these units. -/
theorem cutUnits_whole {units : List SendUnit} (hwhole : ∀ unit ∈ units, unit.Whole) {fuel : ℕ}
    (hfuel : (units.flatMap SendUnit.bytes).length ≤ fuel) :
    cutUnits fuel (units.flatMap SendUnit.bytes) = some units := by
  induction units generalizing fuel with
  | nil => cases fuel <;> rfl
  | cons unit units ih =>
    obtain ⟨hunit, hlater⟩ := forall_mem_cons.mp hwhole
    have hne : unit.bytes ≠ [] := by
      intro hnil
      have hcut := hunit []
      rw [hnil] at hcut
      exact absurd hcut nofun
    rw [flatMap_cons] at hfuel ⊢
    rw [length_append] at hfuel
    have hpos := length_pos_iff.mpr hne
    obtain ⟨fuel, rfl⟩ : ∃ less, fuel = less + 1 := Nat.exists_eq_add_one.mpr (by omega)
    have hcut := hunit (units.flatMap SendUnit.bytes)
    have hrest := @ih hlater fuel (by omega)
    obtain ⟨b, bytes, hbytes⟩ := exists_cons_of_ne_nil hne
    rw [hbytes, cons_append] at hcut ⊢
    rw [cutUnits]
    · rw [hcut]
      simp only [Option.bind_eq_bind, Option.bind_some, hrest]
      rfl
    · exact nofun

/-! ### The calls -/

/-- A buffer of an iovec. Its length fits the int that `send_data` takes. -/
abbrev IoVec := { data : Bytes // data.length < 2147483648 }

/-- The bytes of a list of buffers. -/
def payloadOf (v : List IoVec) : Bytes := v.flatMap Subtype.val

/-- `len` in `interleave_send`: the lengths of the buffers, added up in an int. -/
def iovLength (v : List IoVec) : ℤ := v.foldl (fun len data ↦ wrapInt (len + data.val.length)) 0

/-- `interleave_send` on a connection, with the results of the `write()` calls of
`tcp_conn_flush`. -/
def interleaveSendOn (history : SendHistory) (chan : Channel) (v : List IoVec)
    (results : List WriteResult) : ℤ × SendHistory :=
  let len := iovLength v
  let flushed :=
    if (availSendBuf history.out : ℤ) < wrapInt (len + 4) then
      sendStep history (.tcpConnFlush results)
    else history
  if (availSendBuf flushed.out : ℤ) < wrapInt (len + 4) then (1, flushed)
  else
    let head := 36 :: UInt8.ofNat chan.val :: put16 (len % 65536).toNat
    (0, v.foldl (fun history data ↦ sendStep history (.sendData data.val))
      (sendStep flushed (.sendData head)))

/-- `tcp_send_pmsg` on a connection, if its array holds the text. -/
def sendPmsgOn (history : SendHistory) (m : Pmsg) (len : Option ℕ) : Option (ℤ × SendHistory) :=
  match printedReply m len with
  | none => some (-1, history)
  | some text =>
    if 2048 ≤ text.length then none
    else if availSendBuf history.out < text.length + len.getD 0 then some (-1, history)
    else some (0, sendStep history (.sendData text))

/-- The calls on a connection: a frame, a reply with the session description behind it or without
one, and the socket taking bytes. -/
inductive UnitCall
  | interleaveSend (chan : Channel) (v : List IoVec) (results : List WriteResult)
  | reply (m : { m : Pmsg // PlainReply m }) (sdp : Option Bytes)
  | connWrite (results : List WriteResult)

/-- One call, and what it returns unless it writes outside an array. No call is made on a connection
that was dropped. -/
def unitStep (history : SendHistory) (call : UnitCall) : Option (ℤ × SendHistory) :=
  if history.dropped then some (-1, history)
  else match call with
    | .interleaveSend chan v results => some (interleaveSendOn history chan v results)
    | .reply m sdp =>
      (sendPmsgOn history m.val (sdp.map List.length)).map fun (ret, sent) ↦
        match sdp with
        | some sdp => if 0 ≤ ret then (ret, sendStep sent (.sendData sdp)) else (ret, sent)
        | none => (ret, sent)
    | .connWrite results => some (0, sendStep history (.connWrite results))

/-- The unit that a call is meant to queue. -/
def UnitCall.unit : UnitCall → Option SendUnit
  | .interleaveSend chan v _ => some (.frame (UInt8.ofNat chan.val) (payloadOf v))
  | .reply m sdp =>
    (printedReply m.val (sdp.map List.length)).map fun text ↦ .reply text (sdp.getD [])
  | .connWrite _ => none

/-- The calls one after another: the units of those that returned 0, and the connection after
them. -/
def unitRun (history : SendHistory) : List UnitCall → Option (List SendUnit × SendHistory)
  | [] => some ([], history)
  | call :: calls =>
    (unitStep history call).bind fun (ret, after) ↦
      (unitRun after calls).map fun (units, last) ↦
        ((if ret = 0 then call.unit.toList else []) ++ units, last)

/-- The buffers of a frame have less than 2 GiB in all, with the head of the frame, and a reply fits
the array that it is printed into. -/
def UnitCall.Fits : UnitCall → Prop
  | .interleaveSend _ v _ => (payloadOf v).length + 4 < 2147483648
  | .reply m sdp => ∀ text, printedReply m.val (sdp.map List.length) = some text →
      text.length < 2048
  | .connWrite _ => True

/-! ### One call -/

/-- The connection is well formed, and the bytes it took are those that it handed over and those
that it holds. -/
def SoundHistory (history : SendHistory) : Prop :=
  history.out.Wf ∧ history.fifo.Lawful 65535

variable {history : SendHistory}

theorem sound_sendStep (hsound : SoundHistory history) (call : SendCall) :
    SoundHistory (sendStep history call) := by
  obtain ⟨hwf, hlawful⟩ := hsound
  obtain ⟨hafter, hsteps⟩ := sendStep_refines hwf call
  exact ⟨hafter, Fifo.lawful_of_reaches hsteps hlawful⟩

/-- `send_data` on a connection with room takes the bytes. -/
theorem sendStep_sendData (hsound : SoundHistory history) (hlive : history.dropped = false)
    {data : Bytes} (hfits : data.length ≤ availSendBuf history.out) :
    (sendStep history (.sendData data)).dropped = false ∧
      (sendStep history (.sendData data)).accepted = history.accepted ++ data ∧
      availSendBuf (sendStep history (.sendData data)).out =
        availSendBuf history.out - data.length := by
  have havail := availSendBuf_eq hsound.1.1
  have hbound := length_queued_le hsound.1.1
  have hstep : sendStep history (.sendData data) =
      { history with
        out := (sendData history.out data).2
        accepted := if (sendData history.out data).1 = 0 then history.accepted ++ data
          else history.accepted } := by
    rw [sendStep, if_neg (by rw [hlive]; decide)]
  rcases sendData_spec hsound.1.1 data with ⟨-, hret, hvalid, hqueued, -⟩ | ⟨hover, -⟩
  · rw [hstep, hret, if_pos rfl]
    refine ⟨hlive, rfl, ?_⟩
    rw [availSendBuf_eq hvalid, hqueued, length_append, havail]
    omega
  · omega

variable {v : List IoVec}

/-- The same for buffers one after another. -/
theorem foldl_sendData (hsound : SoundHistory history) (hlive : history.dropped = false)
    (hfits : (payloadOf v).length ≤ availSendBuf history.out) :
    let after := v.foldl (fun history data ↦ sendStep history (.sendData data.val)) history
    SoundHistory after ∧ after.dropped = false ∧
      after.accepted = history.accepted ++ payloadOf v := by
  induction v generalizing history with
  | nil => exact ⟨hsound, hlive, (append_nil _).symm⟩
  | cons data v ih =>
    have hlength : (payloadOf (data :: v)).length = data.val.length + (payloadOf v).length := by
      rw [payloadOf, flatMap_cons, length_append]
      rfl
    have hfirst : data.val.length ≤ availSendBuf history.out := by omega
    obtain ⟨hlive', haccepted, havail⟩ := sendStep_sendData hsound hlive hfirst
    obtain ⟨hafter, hstill, hlast⟩ := ih (sound_sendStep hsound _) hlive' (by omega)
    refine ⟨hafter, hstill, hlast.trans ?_⟩
    rw [haccepted, append_assoc]
    rfl

theorem wrapInt_eq {value : ℤ} (hlow : -2147483648 ≤ value) (hhigh : value < 2147483648) :
    wrapInt value = value := by
  apply Int.bmod_eq_of_le
  · simpa using hlow
  · simpa using hhigh

/-- Lengths that add up to an int are added up without wrapping around. -/
theorem iovLength_eq (hlength : (payloadOf v).length < 2147483648) :
    iovLength v = (payloadOf v).length := by
  have hfold (v : List IoVec) : ∀ before : ℕ, before + (payloadOf v).length < 2147483648 →
      v.foldl (fun len data ↦ wrapInt (len + data.val.length)) (before : ℤ) =
        (before + (payloadOf v).length : ℕ) := by
    induction v with
    | nil => exact fun _ _ ↦ rfl
    | cons data v ih =>
      intro before hbefore
      have hcons : (payloadOf (data :: v)).length = data.val.length + (payloadOf v).length := by
        rw [payloadOf, flatMap_cons, length_append]
        rfl
      have hwrap : wrapInt ((before : ℤ) + data.val.length) = (before + data.val.length : ℕ) := by
        rw [wrapInt_eq (by omega) (by omega)]
        omega
      rw [foldl_cons, hwrap, ih _ (by omega), hcons, Nat.add_assoc]
  have hall := hfold v 0 (by omega)
  rw [Nat.zero_add] at hall
  exact hall

/-- What one call does, on a connection that has not been dropped: it returns 0 and queues its whole
unit, or it fails and queues nothing. -/
structure UnitSent (history : SendHistory) (unit : Option SendUnit) (result : ℤ × SendHistory) :
    Prop where
  sound : SoundHistory result.2
  accepted : result.1 = 0 → result.2.accepted =
    history.accepted ++ unit.toList.flatMap SendUnit.bytes
  whole : result.1 = 0 → ∀ sent ∈ unit, sent.Whole
  refused : result.1 ≠ 0 → result.2.accepted = history.accepted

/-- `interleave_send` with buffers that add up to less than 2 GiB. -/
theorem unitSent_interleaveSendOn (hsound : SoundHistory history) (hlive : history.dropped = false)
    (chan : Channel) (hfits : (payloadOf v).length + 4 < 2147483648) (results : List WriteResult) :
    UnitSent history (some (.frame (UInt8.ofNat chan.val) (payloadOf v)))
      (interleaveSendOn history chan v results) := by
  have hlength := iovLength_eq (v := v) (by omega)
  have hneed : wrapInt (iovLength v + 4) = ((payloadOf v).length + 4 : ℕ) := by
    rw [hlength, wrapInt_eq (by omega) (by omega)]
    rfl
  -- The flush leaves what was accepted alone.
  obtain ⟨flushed, hflushed, hsound', hlive', hsame⟩ : ∃ flushed,
      flushed = (if (availSendBuf history.out : ℤ) < wrapInt (iovLength v + 4) then
        sendStep history (.tcpConnFlush results) else history) ∧
      SoundHistory flushed ∧ flushed.dropped = false ∧ flushed.accepted = history.accepted := by
    refine ⟨_, rfl, ?_⟩
    split_ifs
    · refine ⟨sound_sendStep hsound _, ?_⟩
      rw [sendStep, if_neg (by rw [hlive]; decide)]
      exact ⟨hlive, rfl⟩
    · exact ⟨hsound, hlive, rfl⟩
  unfold interleaveSendOn
  dsimp only
  rw [← hflushed, hneed]
  by_cases hfull : (availSendBuf flushed.out : ℤ) < ((payloadOf v).length + 4 : ℕ)
  · rw [if_pos hfull]
    exact ⟨hsound', nofun, nofun, fun _ ↦ hsame⟩
  rw [if_neg hfull]
  have hroom : (payloadOf v).length + 4 ≤ availSendBuf flushed.out := by omega
  have hbound : availSendBuf flushed.out ≤ 65535 := by
    rw [availSendBuf_eq hsound'.1.1]
    exact Nat.sub_le _ _
  have hsize : (iovLength v % 65536).toNat = (payloadOf v).length := by
    rw [hlength]
    omega
  rw [hsize]
  have hhead : (36 :: UInt8.ofNat chan.val :: put16 (payloadOf v).length : Bytes).length ≤
      availSendBuf flushed.out := Nat.le_trans (Nat.le_add_left 4 _) hroom
  obtain ⟨hheadLive, hheadAccepted, hheadAvail⟩ := sendStep_sendData hsound' hlive' hhead
  have hrest : (payloadOf v).length ≤ availSendBuf (sendStep flushed
      (.sendData (36 :: UInt8.ofNat chan.val :: put16 (payloadOf v).length))).out := by
    rw [hheadAvail]
    exact Nat.le_sub_of_add_le hroom
  obtain ⟨hafter, -, haccepted⟩ := foldl_sendData (sound_sendStep hsound' _) hheadLive hrest
  refine ⟨hafter, fun _ ↦ ?_, fun _ sent hsent ↦ ?_, fun h ↦ absurd rfl h⟩
  · rw [haccepted, hheadAccepted, hsame]
    simp [SendUnit.bytes]
  · obtain rfl := Option.some.inj hsent
    exact whole_frame _ (by omega)

/-- A reply, and the session description behind it: there is room for both or for neither. -/
theorem unitSent_reply (hsound : SoundHistory history) (hlive : history.dropped = false)
    (m : { m : Pmsg // PlainReply m }) (sdp : Option Bytes) (hfits : (UnitCall.reply m sdp).Fits) :
    ∃ result, unitStep history (.reply m sdp) = some result ∧
      UnitSent history (UnitCall.reply m sdp).unit result := by
  obtain ⟨lines, -, -, -, -, hprinted⟩ := exists_lines m.property
  obtain ⟨text, htext⟩ : ∃ text, printedReply m.val (sdp.map List.length) = some text :=
    ⟨_, hprinted _⟩
  have hlength : (sdp.map List.length).getD 0 = (sdp.getD []).length := by
    cases sdp <;> rfl
  have hwhole : (SendUnit.reply text (sdp.getD [])).Whole :=
    whole_reply m.property htext hlength.symm
  have hpmsg : sendPmsgOn history m.val (sdp.map List.length) =
      if availSendBuf history.out < text.length + (sdp.getD []).length then some (-1, history)
      else some (0, sendStep history (.sendData text)) := by
    rw [sendPmsgOn, htext, hlength]
    exact if_neg (Nat.not_le.mpr (hfits text htext))
  rw [UnitCall.unit, htext, Option.map_some, unitStep, if_neg (by rw [hlive]; decide)]
  dsimp only
  rw [hpmsg]
  by_cases hfull : availSendBuf history.out < text.length + (sdp.getD []).length
  · have hrefused : UnitSent history (some (SendUnit.reply text (sdp.getD []))) (-1, history) :=
      ⟨hsound, nofun, nofun, fun _ ↦ rfl⟩
    rw [if_pos hfull]
    refine ⟨_, rfl, ?_⟩
    cases sdp <;> exact hrefused
  rw [if_neg hfull]
  refine ⟨_, rfl, ?_⟩
  have hroom : text.length + (sdp.getD []).length ≤ availSendBuf history.out := Nat.not_lt.mp hfull
  obtain ⟨hlive', haccepted, havail⟩ :=
    sendStep_sendData hsound hlive (Nat.le_of_add_right_le hroom)
  have hsound' := sound_sendStep hsound (.sendData text)
  cases sdp with
  | none =>
    refine ⟨hsound', fun _ ↦ ?_, fun _ sent hsent ↦ Option.some.inj hsent ▸ hwhole,
      fun h ↦ absurd rfl h⟩
    rw [haccepted]
    simp [SendUnit.bytes]
  | some sdp =>
    obtain ⟨-, hbody, -⟩ := sendStep_sendData hsound' hlive'
      (show sdp.length ≤ _ by rw [havail]; exact Nat.le_sub_of_add_le (by rwa [Nat.add_comm]))
    refine ⟨sound_sendStep hsound' _, fun _ ↦ ?_, fun _ sent hsent ↦ Option.some.inj hsent ▸ hwhole,
      fun h ↦ absurd rfl h⟩
    change (sendStep _ (.sendData sdp)).accepted = _
    rw [hbody, haccepted]
    simp [SendUnit.bytes]

theorem unitSent_unitStep (hsound : SoundHistory history) {call : UnitCall} (hfits : call.Fits) :
    ∃ result, unitStep history call = some result ∧ UnitSent history call.unit result := by
  by_cases hdropped : history.dropped = true
  · unfold unitStep
    rw [if_pos hdropped]
    exact ⟨_, rfl, hsound, nofun, nofun, fun _ ↦ rfl⟩
  have hlive : history.dropped = false := Bool.eq_false_iff.mpr hdropped
  cases call with
  | interleaveSend chan v results =>
    rw [unitStep, if_neg hdropped]
    exact ⟨_, rfl, unitSent_interleaveSendOn hsound hlive chan hfits results⟩
  | reply m sdp => exact unitSent_reply hsound hlive m sdp hfits
  | connWrite results =>
    rw [unitStep, if_neg hdropped]
    refine ⟨_, rfl, sound_sendStep hsound _, fun _ ↦ ?_, nofun, fun h ↦ absurd rfl h⟩
    rw [sendStep, if_neg hdropped]
    exact (append_nil _).symm

/-! ### The same calls in the server -/

/-- The function of the server returned, with 0 where the call on the history did, and left the same
send side. -/
def Agrees (c : ℕ) (ran : Except Fault Bool × State) (result : ℤ × SendHistory) : Prop :=
  ∃ sent, ran.1 = .ok sent ∧ (sent = true ↔ result.1 = 0) ∧
    (ran.2.conns.get? c).map Conn.out = some result.2.out

theorem out_sendStep_sendData (hlive : history.dropped = false) (data : Bytes) :
    (sendStep history (.sendData data)).out = (sendData history.out data).2 := by
  rw [sendStep, if_neg (by rw [hlive]; decide)]

theorem dropped_sendStep_sendData (hlive : history.dropped = false) (data : Bytes) :
    (sendStep history (.sendData data)).dropped = false := by
  rw [sendStep, if_neg (by rw [hlive]; decide)]
  exact hlive

variable {s : State}

/-- `tcp_send_pmsg` of the server is the call on the connection's history: it stops at a fault where
that writes outside its array. -/
theorem tcpSendPmsg_agrees {c : ℕ} {conn : Conn} (hconn : s.conns.get? c = some conn)
    (hout : history.out = conn.out) (hlive : history.dropped = false) (m : Pmsg) (len : Option ℕ) :
    match sendPmsgOn history m len with
    | some result => Agrees c (tcpSendPmsg c m len s) result
    | none => (tcpSendPmsg c m len s).1 = .error .longReply := by
  have hsame : Agrees c (.ok false, s) (-1, history) := by
    refine ⟨false, rfl, iff_of_false nofun nofun, ?_⟩
    rw [hconn, hout]
    rfl
  rw [tcpSendPmsg_eq hconn, sendPmsgOn, printedReply]
  cases m.sl with
  | req _ _ => exact hsame
  | stat code reason =>
    dsimp only
    rw [hout]
    by_cases hlong : 2048 ≤ (printPmsg m code reason len).length
    · rw [if_pos hlong, if_pos hlong]
    rw [if_neg hlong, if_neg hlong]
    by_cases hfull : availSendBuf conn.out < (printPmsg m code reason len).length + len.getD 0
    · rw [if_pos hfull, if_pos hfull]
      exact hsame
    · rw [if_neg hfull, if_neg hfull]
      refine ⟨true, rfl, iff_of_true rfl rfl, ?_⟩
      rw [out_sendStep_sendData hlive, hout]
      change ((s.conns.modify c _).get? c).map Conn.out = _
      rw [NodeTable.get?_modify, if_pos rfl, hconn]
      rfl

theorem get?_modify_out {c : ℕ} {conn : Conn} (hconn : s.conns.get? c = some conn)
    (f : SendSide → SendSide) :
    (s.conns.modify c fun conn ↦ { conn with out := f conn.out }).get? c =
      some { conn with out := f conn.out } := by
  rw [NodeTable.get?_modify, if_pos rfl, hconn]
  rfl

/-- What `interleave_send` does after the flush. -/
theorem sendFrame_agrees {c : ℕ} {conn : Conn} (hconn : s.conns.get? c = some conn)
    (hout : history.out = conn.out) (hlive : history.dropped = false) (chan : Channel)
    (data : Bytes) :
    Agrees c ((do
        let conn ← derefConn c
        if availSendBuf conn.out < data.length + 4 then return false
        else do
          let _ ← sendTo c (36 :: UInt8.ofNat chan.val :: put16 data.length)
          let _ ← sendTo c data
          return true : Srv Bool) s)
      (if availSendBuf history.out < data.length + 4 then (1, history)
      else (0, sendStep (sendStep history (.sendData
        (36 :: UInt8.ofNat chan.val :: put16 data.length))) (.sendData data))) := by
  rw [derefConn_apply hconn, hout]
  by_cases hfull : availSendBuf conn.out < data.length + 4
  · rw [if_pos hfull, if_pos hfull]
    refine ⟨false, rfl, iff_of_false nofun nofun, ?_⟩
    change (s.conns.get? c).map Conn.out = _
    rw [hconn, hout]
    rfl
  · rw [if_neg hfull, if_neg hfull, bind_apply, sendTo_eq hconn]
    dsimp only
    have hhead := get?_modify_out hconn fun out ↦
      (sendData out (36 :: UInt8.ofNat chan.val :: put16 data.length)).2
    rw [bind_apply, sendTo_eq hhead]
    refine ⟨true, rfl, iff_of_true rfl rfl, ?_⟩
    have hboth := get?_modify_out (s := { s with conns := _ }) hhead fun out ↦ (sendData out data).2
    refine (congrArg (Option.map Conn.out) hboth).trans ?_
    rw [out_sendStep_sendData (dropped_sendStep_sendData hlive _), out_sendStep_sendData hlive,
      hout]
    rfl

/-- `interleave_send` of the server, which has the buffers in one piece, is the call on the
connection's history. -/
theorem interleaveSend_agrees {c : ℕ} {conn : Conn} (hconn : s.conns.get? c = some conn)
    (hout : history.out = conn.out) (hlive : history.dropped = false) (chan : Channel)
    (data : IoVec) (hdata : data.val.length + 4 < 2147483648) (results : List WriteResult) :
    Agrees c (interleaveSend c chan data.val results s)
      (interleaveSendOn history chan [data] results) := by
  have hpayload : payloadOf [data] = data.val := flatMap_singleton _ _
  have hlength : iovLength [data] = data.val.length := by
    rw [iovLength_eq (by rw [hpayload]; omega), hpayload]
  have hneed : wrapInt (iovLength [data] + 4) = (data.val.length + 4 : ℕ) := by
    rw [hlength, wrapInt_eq (by omega) (by omega)]
    rfl
  have hsize : put16 (iovLength [data] % 65536).toNat = put16 data.val.length := by
    rw [hlength]
    exact put16_mod _
  unfold interleaveSendOn
  dsimp only
  rw [hsize, hneed]
  simp only [Int.ofNat_lt, foldl_cons, foldl_nil]
  rw [interleaveSend, derefConn_apply hconn, hout]
  by_cases hfull : availSendBuf conn.out < data.val.length + 4
  · rw [if_pos hfull, if_pos hfull]
    have hflushed := get?_modify_out hconn fun out ↦ (tcpConnFlush out results).1
    refine sendFrame_agrees (s := { s with conns := _ }) hflushed ?_ ?_ chan data.val
    · rw [sendStep, if_neg (by rw [hlive]; decide), ← hout]
    · rw [sendStep, if_neg (by rw [hlive]; decide)]
      exact hlive
  · rw [if_neg hfull, if_neg hfull]
    exact sendFrame_agrees hconn hout hlive chan data.val

/-! ### Sequences of calls -/

/-- The units that were accepted are what was queued, and each of them is whole. -/
theorem unitRun_spec (hsound : SoundHistory history) {calls : List UnitCall}
    (hfits : ∀ call ∈ calls, call.Fits) :
    ∃ units last, unitRun history calls = some (units, last) ∧ SoundHistory last ∧
      last.accepted = history.accepted ++ units.flatMap SendUnit.bytes ∧
      ∀ unit ∈ units, unit.Whole := by
  induction calls generalizing history with
  | nil => exact ⟨[], history, rfl, hsound, (append_nil _).symm, nofun⟩
  | cons call calls ih =>
    obtain ⟨hcall, hlater⟩ := forall_mem_cons.mp hfits
    obtain ⟨⟨ret, after⟩, hstep, hsent⟩ := unitSent_unitStep hsound hcall
    obtain ⟨units, last, hrun, hafter, haccepted, hwhole⟩ := ih hsent.sound hlater
    refine ⟨(if ret = 0 then call.unit.toList else []) ++ units, last, ?_, hafter, ?_, ?_⟩
    · rw [unitRun, hstep, Option.bind_some]
      dsimp only
      rw [hrun]
      rfl
    · rw [haccepted, flatMap_append]
      by_cases hret : ret = 0
      · rw [if_pos hret, hsent.accepted hret, append_assoc]
      · rw [if_neg hret, hsent.refused hret]
        rfl
    · refine forall_mem_append.mpr ⟨fun unit hunit ↦ ?_, hwhole⟩
      by_cases hret : ret = 0
      · rw [if_pos hret] at hunit
        exact hsent.whole hret unit (Option.mem_toList.mp hunit)
      · rw [if_neg hret] at hunit
        exact absurd hunit not_mem_nil

/-- For every sequence of frames, replies and session descriptions on a connection, in any order,
from any state of the send ring, and whatever the socket takes in between: what is queued is cut
into exactly the units that were accepted, in order; and a further call either returns 0 and queues
its whole unit, or fails and queues nothing.

Assumes: the connection is sound at the start, the buffers of every frame have less than 2 GiB in
all, and every reply is printed with less than 2048 bytes. -/
theorem sent_units_whole (start : SendHistory) (calls : List UnitCall)
    (hstart : SoundHistory start) (hfits : ∀ call ∈ calls, call.Fits) :
    ∃ units last, unitRun start calls = some (units, last) ∧
      last.handed ++ last.out.queued = last.accepted ∧
      (∃ sent, last.accepted = start.accepted ++ sent ∧
        cutUnits sent.length sent = some units) ∧
      ∀ call : UnitCall, call.Fits → ∃ ret after, unitStep last call = some (ret, after) ∧
        (ret = 0 ∧ after.accepted =
            last.accepted ++ call.unit.toList.flatMap SendUnit.bytes ∨
          ret ≠ 0 ∧ after.accepted = last.accepted) := by
  obtain ⟨units, last, hrun, hsound, haccepted, hwhole⟩ := unitRun_spec hstart hfits
  refine ⟨units, last, hrun, hsound.2.2,
    ⟨_, haccepted, cutUnits_whole hwhole (Nat.le_refl _)⟩, fun call hcall ↦ ?_⟩
  obtain ⟨⟨ret, after⟩, hstep, hsent⟩ := unitSent_unitStep hsound hcall
  refine ⟨ret, after, hstep, ?_⟩
  by_cases hret : ret = 0
  · exact Or.inl ⟨hret, hsent.accepted hret⟩
  · exact Or.inr ⟨hret, hsent.refused hret⟩

/-- A connection on which nothing has been sent. -/
def freshHistory : SendHistory := ⟨freshSendSide fun _ ↦ 0, false, [], []⟩

theorem sound_freshHistory : SoundHistory freshHistory :=
  ⟨wf_freshSendSide _, Nat.zero_le _, rfl⟩

theorem plainReply_sampleReply : PlainReply sampleReply := by
  refine ⟨ascii "RTSP/1.0", 200, ascii "OK", ⟨by decide, ⟨9, by decide, by decide⟩, rfl⟩,
    by decide, by decide, by decide, ?_⟩
  intro header hheader
  have hcseq : header = (ascii "CSeq", ascii "7") := by
    have hheaders : sampleReply.headers = [(ascii "CSeq", ascii "7")] := by decide
    rwa [hheaders, mem_singleton] at hheader
  rw [hcseq]
  exact ⟨by decide, by decide, by decide⟩

theorem one_lt_channels : 1 < 8 := by decide

/-- A frame and a reply with its description, on a connection where nothing was sent before. -/
def sampleCalls : List UnitCall :=
  [.interleaveSend ⟨1, one_lt_channels⟩ [⟨[7], by decide⟩, ⟨[8, 9], by decide⟩] [],
    .reply ⟨sampleReply, plainReply_sampleReply⟩ (some (ascii "v=0\r\n"))]

theorem sent_units_sample :
    ∃ units last, unitRun freshHistory sampleCalls = some (units, last) ∧
      ∃ sent, last.accepted = freshHistory.accepted ++ sent ∧
        cutUnits sent.length sent = some units := by
  obtain ⟨units, last, hrun, -, hcut, -⟩ :=
    sent_units_whole freshHistory sampleCalls sound_freshHistory (by
      refine forall_mem_cons.mpr ⟨?_, forall_mem_cons.mpr ⟨fun text htext ↦ ?_, nofun⟩⟩
      · change 3 + 4 < 2147483648
        decide
      · rw [← Option.some.inj htext]
        decide)
  exact ⟨units, last, hrun, hcut⟩

/-- A buffer of the size of the ring is never taken. -/
theorem sendStep_refused (hsound : SoundHistory history) {data : Bytes}
    (hdata : data.length = 65536) : sendStep history (.sendData data) = history := by
  unfold sendStep
  split_ifs with hdropped
  · rfl
  rcases sendData_spec hsound.1.1 data with ⟨hfits, -⟩ | ⟨-, hrefused⟩
  · omega
  · simp only [hrefused]
    rfl

theorem iovLength_concat (v : List IoVec) (data : IoVec) :
    iovLength (v ++ [data]) = wrapInt (iovLength v + data.val.length) := by
  rw [iovLength, foldl_append]
  rfl

/-- 32768 such buffers add up to 2 GiB, which is a negative int. -/
theorem iovLength_replicate {data : IoVec} (hdata : data.val.length = 65536) :
    iovLength (List.replicate 32768 data) = -2147483648 := by
  have hpayload (n : ℕ) : (payloadOf (List.replicate n data)).length = n * 65536 := by
    induction n with
    | zero => rfl
    | succ n ih =>
      rw [replicate_succ, payloadOf, flatMap_cons, length_append, ← payloadOf, ih, hdata]
      omega
  have hless : iovLength (List.replicate 32767 data) = 2147418112 := by
    rw [iovLength_eq (by rw [hpayload]; decide), hpayload]
    rfl
  rw [replicate_succ', iovLength_concat, hless, hdata]
  decide

/-- A frame of 2 GiB is reported as sent, and an empty frame is queued for it. -/
theorem sent_units_overflow :
    ∃ v : List IoVec,
      payloadOf v ≠ [] ∧
      (∃ last, unitRun freshHistory [.interleaveSend 0 v []] =
        some ([.frame 0 (payloadOf v)], last) ∧ last.accepted = [36, 0, 0, 0]) ∧
      cutUnits 4 [36, 0, 0, 0] = some [.frame 0 []] := by
  let data : IoVec := ⟨List.replicate 65536 0, by rw [length_replicate]; decide⟩
  have hdata : data.val.length = 65536 := length_replicate
  have hlength := iovLength_replicate hdata
  have hfold (n : ℕ) {history : SendHistory} (hsound : SoundHistory history) :
      (List.replicate n data).foldl
        (fun history data ↦ sendStep history (.sendData data.val)) history = history := by
    induction n with
    | zero => rfl
    | succ n ih => rw [replicate_succ, foldl_cons, sendStep_refused hsound hdata, ih]
  obtain ⟨v, hv⟩ : ∃ v, v = List.replicate 32768 data := ⟨_, rfl⟩
  rw [← hv] at hlength
  have hnegative (avail : ℕ) : ¬ (avail : ℤ) < wrapInt (-2147483648 + 4) := by
    rw [wrapInt_eq (by decide) (by decide)]
    omega
  have hstep : unitStep freshHistory (.interleaveSend 0 v []) =
      some (0, sendStep freshHistory (.sendData [36, 0, 0, 0])) := by
    rw [unitStep, if_neg (by decide), interleaveSendOn, hlength, if_neg (hnegative _)]
    dsimp only
    rw [if_neg (hnegative _), hv, hfold 32768 (sound_sendStep sound_freshHistory _)]
    rfl
  have hrun : unitRun freshHistory [.interleaveSend 0 v []] =
      some ([.frame 0 (payloadOf v)], sendStep freshHistory (.sendData [36, 0, 0, 0])) := by
    rw [unitRun, hstep]
    rfl
  have hroom : ([36, 0, 0, 0] : Bytes).length ≤ availSendBuf freshHistory.out := by decide
  refine ⟨v, fun hnil ↦ ?_, ⟨_, hrun, ?_⟩, by decide⟩
  · have hzero := iovLength_eq (v := v) (by rw [hnil]; decide)
    rw [hlength, hnil] at hzero
    exact absurd hzero (by decide)
  · exact (sendStep_sendData sound_freshHistory rfl hroom).2.1

end WisCam.Server
