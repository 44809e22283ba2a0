import WisCam.Message.Grammar

/-!
# The first line of a message

A first line is the line of a request or of a response (`StartLine`). The parser tells them apart by
its first word alone: with a slash in it the line is a response. `parseStartLine_text` evaluates the
parser on a first line, and `exists_of_parseStartLine` finds the line when the parser succeeds;
`type_parsePmsg` is the resulting classification of whole messages.
-/

set_option autoImplicit false

namespace WisCam.Message

open Foundations List

/-! ### The end of a first line -/

def crBytes (cr : Bool) : Bytes := if cr then [13] else []

section LineEnd

variable {d front back : Bytes} {i : ℕ}

theorem skipCr_at {cr : Bool} (hcut : CutAt d i front (crBytes cr ++ back))
    (hback : cr = false → back.head? ≠ some 13) : skipCr d i = i + (crBytes cr).length := by
  unfold skipCr
  rw [hcut.get]
  cases cr with
  | true => rfl
  | false => exact if_neg (hback rfl)

/-- A text is an optional CR followed by something that the parser does not skip. -/
theorem exists_crBytes (text : Bytes) :
    ∃ cr back, text = crBytes cr ++ back ∧ (cr = false → back.head? ≠ some 13) := by
  by_cases hcr : text.head? = some 13
  · cases text with
    | nil => exact absurd hcr nofun
    | cons b back =>
      obtain rfl := Option.some.inj hcr
      exact ⟨true, back, rfl, nofun⟩
  · exact ⟨false, text, rfl, fun _ ↦ hcr⟩

/-- The last part of a first line: the protocol word or the reason, the byte that ends it, and the
spaces, the CR and the LF that may follow. -/
structure LastPart where
  word : Bytes
  stop : UInt8
  spaces : ℕ
  cr : Bool
  word_line : OneLine word
  word_start : word.head? ≠ some 32
  stop_ends : EndsLine stop

/-- What stands between the word's terminator and the next line. -/
def LastPart.filler (part : LastPart) : Bytes :=
  List.replicate part.spaces 32 ++ (crBytes part.cr ++ [10])

def LastPart.text (part : LastPart) : Bytes := part.word ++ part.stop :: part.filler

/-- The bytes of the last part after the parser has cut it. -/
def LastPart.cut (part : LastPart) : Bytes := part.word ++ 0 :: part.filler

theorem LastPart.length_text (part : LastPart) :
    part.text.length = part.word.length + 1 + part.filler.length := by
  rw [LastPart.text, length_append, length_cons]
  omega

theorem LastPart.head_text (part : LastPart) (back : Bytes) :
    (part.text ++ back).head? ≠ some 32 := by
  unfold LastPart.text
  cases hword : part.word with
  | nil =>
    intro hstop
    have hspace : part.stop = 32 := Option.some.inj hstop
    have hends := part.stop_ends
    rw [hspace] at hends
    rcases hends with h | h | h <;> exact absurd h (by decide)
  | cons b rest =>
    have hstart := part.word_start
    rw [hword] at hstart
    exact hstart

theorem parseLineEnd_at {part : LastPart} (hcut : CutAt d i front (part.filler ++ back)) :
    parseLineEnd d i = .ok (i + part.filler.length) := by
  simp only [LastPart.filler, append_assoc, singleton_append] at hcut
  have hspaces := skipSpaces_at hcut (by cases part.cr <;> exact nofun)
  have hcr := hcut.move
  rw [length_replicate] at hcr
  unfold parseLineEnd LastPart.filler
  dsimp only
  rw [hspaces, skipCr_at hcr fun _ ↦ nofun, hcr.move.get, List.head?_cons, beq_self_eq_true,
    require_true, ok_bind]
  simp only [length_append, length_replicate, length_singleton, Nat.add_assoc]
  rfl

theorem of_parseLineEnd {rest : Bytes} {j : ℕ} (hcut : CutAt d i front rest)
    (hok : parseLineEnd d i = .ok j) :
    ∃ spaces cr back, rest = List.replicate spaces 32 ++ (crBytes cr ++ 10 :: back) := by
  obtain ⟨spaces, text, rfl, htext⟩ := exists_spaces rest
  obtain ⟨cr, after, rfl, hafter⟩ := exists_crBytes text
  have hcr := hcut.move
  rw [length_replicate] at hcr
  have hlf := (of_require_bind hok).1
  rw [skipSpaces_at hcut htext, skipCr_at hcr hafter, hcr.move.get, beq_iff_eq] at hlf
  obtain ⟨back, rfl⟩ := List.head?_eq_some_iff.mp hlf
  exact ⟨spaces, cr, back, rfl⟩

/-- The last part is cut after its word, and the next line begins behind it. -/
theorem lastPart_at {part : LastPart} (hcut : CutAt d i front (part.text ++ back)) :
    ∃ j, cutLine d i = .ok (front ++ (part.cut ++ back), j) ∧
      parseLineEnd (front ++ (part.cut ++ back)) j = .ok (i + part.text.length) := by
  have htext := hcut
  rw [LastPart.text, append_assoc, cons_append] at htext
  obtain ⟨d', j, hline, hend⟩ := cutLine_at htext part.word_line part.stop_ends
  have hd : d' = front ++ (part.cut ++ back) := by
    rw [hend.append, LastPart.cut]
    simp only [append_assoc, cons_append, nil_append]
  have hj : j + part.filler.length = i + part.text.length := by
    rw [← hend.length, part.length_text]
    simp only [length_append, length_singleton, hcut.length]
    omega
  rw [← hd]
  exact ⟨j, hline, hj ▸ parseLineEnd_at hend⟩

/-- A line's last part is found by cutting its word and taking the end of the line after it. -/
theorem exists_lastPart {rest : Bytes} {j : ℕ} {result : Bytes × ℕ} (hcut : CutAt d i front rest)
    (hrest : rest.head? ≠ some 32) (hline : cutLine d i = .ok result)
    (hend : parseLineEnd result.1 result.2 = .ok j) :
    ∃ part : LastPart, ∃ back, rest = part.text ++ back := by
  obtain ⟨word, stop, after, rfl, hword, hstop, hafter⟩ := of_cutLine hcut hline
  obtain ⟨spaces, cr, back, rfl⟩ := of_parseLineEnd hafter hend
  have hwordStart : word.head? ≠ some 32 := by
    intro hspace
    exact hrest (by rw [List.head?_append, hspace]; rfl)
  refine ⟨⟨word, stop, spaces, cr, hword, hwordStart, hstop⟩, back, ?_⟩
  simp only [LastPart.text, LastPart.filler, append_assoc, cons_append, nil_append]

end LineEnd

/-! ### Request lines and response lines -/

/-- A request line: the method, a space and further ones, the URI, a space and further ones, and the
protocol. -/
structure RequestLine where
  method : Bytes
  gap : ℕ
  uri : Bytes
  gap' : ℕ
  proto : LastPart
  method_word : OneWord method
  method_slash : 47 ∉ method
  uri_word : OneWord uri
  uri_ne : uri ≠ []

/-- A response line: the protocol, a space and further ones, a code of three digits, a space and
further ones, and the reason. -/
structure ResponseLine where
  proto : Bytes
  gap : ℕ
  digits : UInt8 × UInt8 × UInt8
  gap' : ℕ
  reason : LastPart
  proto_word : OneWord proto
  proto_slash : 47 ∈ proto
  digits_digit : isDigit digits.1 ∧ isDigit digits.2.1 ∧ isDigit digits.2.2

/-- The first line of a message. -/
inductive StartLine
  | request (line : RequestLine)
  | response (line : ResponseLine)

/-- The bytes of a request line, with its two words ended by `stop`. -/
def RequestLine.bytes (line : RequestLine) (stop : UInt8) (proto : Bytes) : Bytes :=
  line.method ++ stop :: (List.replicate line.gap 32 ++
    (line.uri ++ stop :: (List.replicate line.gap' 32 ++ proto)))

/-- The bytes of a response line, with its first word ended by `stop`. -/
def ResponseLine.bytes (line : ResponseLine) (stop : UInt8) (reason : Bytes) : Bytes :=
  line.proto ++ stop :: (List.replicate line.gap 32 ++
    (line.digits.1 :: line.digits.2.1 :: line.digits.2.2 :: 32 ::
      (List.replicate line.gap' 32 ++ reason)))

def StartLine.text : StartLine → Bytes
  | .request line => line.bytes 32 line.proto.text
  | .response line => line.bytes 32 line.reason.text

/-- The bytes of a first line after the parser has cut it. -/
def StartLine.cut : StartLine → Bytes
  | .request line => line.bytes 0 line.proto.cut
  | .response line => line.bytes 0 line.reason.cut

def StartLine.protoId : StartLine → ℕ
  | .request line => line.method.length + 1 + line.gap + line.uri.length + 1 + line.gap'
  | .response _ => 0

/-- The status line that the parser stores. -/
def StartLine.sl : StartLine → StatusLine
  | .request line => .req 0 (line.method.length + 1 + line.gap)
  | .response line =>
    .stat (digitsValue 0 [line.digits.1, line.digits.2.1, line.digits.2.2])
      (some (line.proto.length + 1 + line.gap + 4 + line.gap'))

theorem parseRequestLine_bytes (line : RequestLine) (back : Bytes) :
    ∃ i, parseRequestLine (line.bytes 32 line.proto.text ++ back) =
        .ok (line.bytes 0 line.proto.cut ++ back, i, (StartLine.request line).protoId,
          (StartLine.request line).sl) ∧
      parseLineEnd (line.bytes 0 line.proto.cut ++ back) i =
        .ok (line.bytes 32 line.proto.text).length := by
  have hcut : CutAt (line.bytes 32 line.proto.text ++ back) 0 [] (line.method ++ 32 ::
      (List.replicate line.gap 32 ++ (line.uri ++ 32 ::
        (List.replicate line.gap' 32 ++ (line.proto.text ++ back))))) :=
    ⟨by simp only [RequestLine.bytes, append_assoc, cons_append, nil_append], rfl⟩
  have huriStart : (line.uri ++ 32 :: (List.replicate line.gap' 32 ++
      (line.proto.text ++ back))).head? ≠ some 32 := by
    cases huri : line.uri with
    | nil => exact absurd huri line.uri_ne
    | cons b rest =>
      intro hb
      exact (line.uri_word b (huri ▸ mem_cons_self ..)).1 (Option.some.inj hb)
  obtain ⟨_, uriAt, hmethod, hatUri⟩ := cutWord_at hcut line.method_word huriStart
  obtain ⟨_, protoAt, huri, hatProto⟩ :=
    cutWord_at hatUri line.uri_word (line.proto.head_text back)
  obtain ⟨i, hproto, hend⟩ := lastPart_at hatProto
  have huriAt : uriAt = line.method.length + 1 + line.gap := by
    rw [← hatUri.length]
    simp only [nil_append, length_append, length_cons, length_replicate]
    omega
  have hprotoAt : protoAt = (StartLine.request line).protoId := by
    rw [← hatProto.length, length_append, hatUri.length, huriAt, StartLine.protoId]
    simp only [length_append, length_cons, length_replicate]
    omega
  have hlength : protoAt + line.proto.text.length = (line.bytes 32 line.proto.text).length := by
    rw [hprotoAt, StartLine.protoId, RequestLine.bytes]
    simp only [length_append, length_cons, length_replicate]
    omega
  have hd : [] ++ (line.method ++ 0 :: List.replicate line.gap 32) ++
      (line.uri ++ 0 :: List.replicate line.gap' 32) ++ (line.proto.cut ++ back) =
        line.bytes 0 line.proto.cut ++ back := by
    simp only [RequestLine.bytes, append_assoc, cons_append, nil_append]
  rw [hd, hlength] at hend
  refine ⟨i, ?_, hend⟩
  unfold parseRequestLine
  rw [hmethod, ok_bind]
  dsimp only
  rw [huri, ok_bind]
  dsimp only
  rw [hproto, ok_bind, hd, huriAt, hprotoAt]
  rfl

theorem parseResponseLine_bytes (line : ResponseLine) (back : Bytes) :
    ∃ i, parseResponseLine (line.bytes 32 line.reason.text ++ back) =
        .ok (line.bytes 0 line.reason.cut ++ back, i, (StartLine.response line).protoId,
          (StartLine.response line).sl) ∧
      parseLineEnd (line.bytes 0 line.reason.cut ++ back) i =
        .ok (line.bytes 32 line.reason.text).length := by
  obtain ⟨hdigit, hdigit', hdigit''⟩ := line.digits_digit
  have hcut : CutAt (line.bytes 32 line.reason.text ++ back) 0 [] (line.proto ++ 32 ::
      (List.replicate line.gap 32 ++ line.digits.1 :: line.digits.2.1 :: line.digits.2.2 :: 32 ::
        (List.replicate line.gap' 32 ++ (line.reason.text ++ back)))) :=
    ⟨by simp only [ResponseLine.bytes, append_assoc, cons_append, nil_append], rfl⟩
  have hcodeStart : (line.digits.1 :: line.digits.2.1 :: line.digits.2.2 :: 32 ::
      (List.replicate line.gap' 32 ++ (line.reason.text ++ back))).head? ≠ some 32 := by
    intro hspace
    rw [Option.some.inj hspace] at hdigit
    exact absurd hdigit (by decide)
  obtain ⟨_, codeAt, hproto, hatCode⟩ := cutWord_at hcut line.proto_word hcodeStart
  have hgap := hatCode.next.next.next.next
  obtain ⟨i, hreason, hend⟩ := lastPart_at hgap.move
  have hcodeAt : codeAt = line.proto.length + 1 + line.gap := by
    rw [← hatCode.length]
    simp only [nil_append, length_append, length_cons, length_replicate]
    omega
  rw [length_replicate] at hreason hend
  have hlength : codeAt + 1 + 1 + 1 + 1 + line.gap' + line.reason.text.length =
      (line.bytes 32 line.reason.text).length := by
    rw [hcodeAt, ResponseLine.bytes]
    simp only [length_append, length_cons, length_replicate]
    omega
  have hd : [] ++ (line.proto ++ 0 :: List.replicate line.gap 32) ++ [line.digits.1] ++
      [line.digits.2.1] ++ [line.digits.2.2] ++ [32] ++ List.replicate line.gap' 32 ++
        (line.reason.cut ++ back) = line.bytes 0 line.reason.cut ++ back := by
    simp only [ResponseLine.bytes, append_assoc, cons_append, nil_append]
  rw [hd, hlength] at hend
  have hdelim : delim (line.bytes 32 line.reason.text ++ back) 32 0 = 0 + line.proto.length := by
    rw [hcut.append, Nat.zero_add]
    exact delim_oneWord line.proto_word
  refine ⟨i, ?_, hend⟩
  unfold parseResponseLine
  rw [hdelim, byteAt_at hcut.move, ok_bind, hproto, ok_bind]
  dsimp only
  rw [hatCode.drop]
  dsimp only
  rw [hdigit, hdigit', hdigit'', skipSpaces_at hgap (line.reason.head_text back), hreason, hd,
    hcodeAt]
  rfl

/-- The first word decides what the first line is taken for. -/
theorem getElem?_firstWord {word back : Bytes} (hword : OneWord word) :
    (word ++ 32 :: back)[((word ++ 32 :: back).takeWhile
      fun b ↦ !(b == 32 || b == 47)).length]? = some (if 47 ∈ word then 47 else 32) := by
  obtain ⟨front, rest, rfl, hfront, hstop⟩ := exists_takeWhile_split (· != 47) word
  have hplain : ∀ b ∈ front, (!(b == 32 || b == 47)) = true := by
    intro b hb
    have hslash := hfront b hb
    have hspace := (hword b (mem_append_left _ hb)).1
    simp only [bne_iff_ne, ne_eq] at hslash
    simpa using ⟨hspace, hslash⟩
  cases rest with
  | nil =>
    have hnone : 47 ∉ front ++ [] := by
      rw [append_nil]
      intro hmem
      exact absurd (hfront 47 hmem) (by decide)
    rw [if_neg hnone, append_nil, takeWhile_append_stop hplain (fun b hb ↦ ?_)]
    · exact CutAt.get ⟨rfl, rfl⟩
    · rw [← Option.some.inj hb]
      rfl
  | cons b rest =>
    obtain rfl : b = 47 := by simpa using hstop b rfl
    have hsome : 47 ∈ front ++ 47 :: rest := by simp
    rw [if_pos hsome, append_assoc, cons_append, takeWhile_append_stop hplain (fun b hb ↦ ?_)]
    · exact CutAt.get ⟨rfl, rfl⟩
    · rw [← Option.some.inj hb]
      rfl

/-- The scan for a slash ends at the first space at the latest, so the first word decides which of
the two lines is read. -/
theorem parseStartLine_firstWord {d word back : Bytes} (hd : d = word ++ 32 :: back)
    (hword : OneWord word) (hlong : 4 ≤ d.length) :
    parseStartLine d =
      ((if 47 ∈ word then parseResponseLine d else parseRequestLine d) >>= fun result ↦
        parseLineEnd result.1 result.2.1 >>= fun i ↦
          .ok (result.1, i, result.2.2.1, result.2.2.2)) := by
  have hstop : d[(d.takeWhile fun b ↦ !(b == 32 || b == 47)).length]? =
      some (if 47 ∈ word then 47 else 32) := by
    rw [hd]
    exact getElem?_firstWord hword
  have hinside := (List.getElem?_eq_some_iff.mp hstop).1
  unfold parseStartLine
  dsimp only
  rw [decide_eq_true hlong, bne_iff_ne.mpr (Nat.ne_of_lt hinside), hstop, require_true, ok_bind,
    ok_bind]
  by_cases hslash : 47 ∈ word
  · rw [if_pos hslash, if_pos rfl, if_pos hslash]
    rfl
  · rw [if_neg hslash, if_neg (by decide), if_neg hslash]
    rfl

/-- A first line is cut in place. -/
theorem parseStartLine_text (line : StartLine) (back : Bytes) :
    parseStartLine (line.text ++ back) =
      .ok (line.cut ++ back, line.text.length, line.protoId, line.sl) := by
  cases line with
  | request line =>
    have hlong : 4 ≤ (line.bytes 32 line.proto.text ++ back).length := by
      have huri := length_pos_iff.mpr line.uri_ne
      simp only [RequestLine.bytes, LastPart.filler, length_append, length_cons,
        length_nil, LastPart.length_text]
      omega
    have hfirst := parseStartLine_firstWord
      (by rw [RequestLine.bytes, append_assoc, cons_append]) line.method_word hlong
    obtain ⟨i, hline, hend⟩ := parseRequestLine_bytes line back
    rw [StartLine.text, hfirst, if_neg line.method_slash, hline, ok_bind]
    dsimp only
    rw [hend]
    rfl
  | response line =>
    have hlong : 4 ≤ (line.bytes 32 line.reason.text ++ back).length := by
      simp only [ResponseLine.bytes, length_append, length_cons]
      omega
    have hfirst := parseStartLine_firstWord
      (by rw [ResponseLine.bytes, append_assoc, cons_append]) line.proto_word hlong
    obtain ⟨i, hline, hend⟩ := parseResponseLine_bytes line back
    rw [StartLine.text, hfirst, if_pos line.proto_slash, hline, ok_bind]
    dsimp only
    rw [hend]
    rfl

section Found

variable {d word after : Bytes} {count j : ℕ} {result : Bytes × ℕ × ℕ × StatusLine}

theorem of_parseRequestLine
    (hcut : CutAt d 0 [] (word ++ 32 :: (List.replicate count 32 ++ after))) (hword : OneWord word)
    (hslash : 47 ∉ word) (hafter : after.head? ≠ some 32) (hok : parseRequestLine d = .ok result)
    (hend : parseLineEnd result.1 result.2.1 = .ok j) :
    ∃ line : RequestLine, ∃ back, d = line.bytes 32 line.proto.text ++ back := by
  obtain ⟨_, _, hmethod, hatUri⟩ := cutWord_at hcut hword hafter
  unfold parseRequestLine at hok
  rw [hmethod, ok_bind] at hok
  obtain ⟨_, hcutUri, hok⟩ := bind_eq_ok_iff.mp hok
  obtain ⟨uri, count', proto, rfl, huri, hproto, hatProto⟩ := of_cutWord hatUri hcutUri
  obtain ⟨_, hcutProto, hok⟩ := bind_eq_ok_iff.mp hok
  obtain rfl := Except.ok.inj hok
  obtain ⟨part, back, rfl⟩ := exists_lastPart hatProto hproto hcutProto hend
  have huriNe : uri ≠ [] := by
    rintro rfl
    exact hafter rfl
  refine ⟨⟨word, count, uri, count', part, hword, hslash, huri, huriNe⟩, back, ?_⟩
  rw [hcut.append]
  simp only [RequestLine.bytes, append_assoc, cons_append, nil_append]

theorem of_parseResponseLine
    (hcut : CutAt d 0 [] (word ++ 32 :: (List.replicate count 32 ++ after))) (hword : OneWord word)
    (hslash : 47 ∈ word) (hafter : after.head? ≠ some 32) (hok : parseResponseLine d = .ok result)
    (hend : parseLineEnd result.1 result.2.1 = .ok j) :
    ∃ line : ResponseLine, ∃ back, d = line.bytes 32 line.reason.text ++ back := by
  obtain ⟨_, _, hproto, hatCode⟩ := cutWord_at hcut hword hafter
  unfold parseResponseLine at hok
  obtain ⟨_, -, hok⟩ := bind_eq_ok_iff.mp hok
  rw [hproto, ok_bind] at hok
  dsimp only at hok
  rw [hatCode.drop] at hok
  split at hok
  case h_2 => exact absurd hok nofun
  case h_1 a b c e rest =>
    obtain ⟨hdigits, hline⟩ := of_require_bind hok
    simp only [Bool.and_eq_true, beq_iff_eq] at hdigits
    obtain ⟨⟨⟨ha, hb⟩, hc⟩, rfl⟩ := hdigits
    obtain ⟨count', reason, rfl, hreason⟩ := exists_spaces rest
    have hgap := hatCode.next.next.next.next
    rw [skipSpaces_at hgap hreason] at hline
    obtain ⟨_, hcutReason, hline⟩ := bind_eq_ok_iff.mp hline
    obtain rfl := Except.ok.inj hline
    have hatReason := hgap.move
    rw [length_replicate] at hatReason
    obtain ⟨part, back, rfl⟩ := exists_lastPart hatReason hreason hcutReason hend
    refine ⟨⟨word, count, (a, b, c), count', part, hword, hslash, ha, hb, hc⟩, back, ?_⟩
    rw [hcut.append]
    simp only [ResponseLine.bytes, append_assoc, cons_append, nil_append]

end Found

/-- When the parser takes the first line, the message begins with a first line. -/
theorem exists_of_parseStartLine {d : Bytes} {result : Bytes × ℕ × ℕ × StatusLine}
    (hparse : parseStartLine d = .ok result) :
    ∃ line : StartLine, ∃ back, d = line.text ++ back := by
  have hfirst : ∃ cut, cutWord d 0 = .ok cut := by
    unfold parseStartLine at hparse
    obtain ⟨-, hparse⟩ := of_require_bind hparse
    obtain ⟨-, hparse⟩ := of_require_bind hparse
    dsimp only at hparse
    split_ifs at hparse
    · obtain ⟨_, hparse, -⟩ := bind_eq_ok_iff.mp hparse
      obtain ⟨_, -, hparse⟩ := bind_eq_ok_iff.mp hparse
      obtain ⟨cut, hcut, -⟩ := bind_eq_ok_iff.mp hparse
      exact ⟨cut, hcut⟩
    · obtain ⟨_, hparse, -⟩ := bind_eq_ok_iff.mp hparse
      obtain ⟨cut, hcut, -⟩ := bind_eq_ok_iff.mp hparse
      exact ⟨cut, hcut⟩
  obtain ⟨cut, hcut⟩ := hfirst
  obtain ⟨word, count, after, hd, hword, hafter, -⟩ := of_cutWord (.start d) hcut
  have hlong := of_decide_eq_true (of_require_bind hparse).1
  rw [parseStartLine_firstWord hd hword hlong] at hparse
  obtain ⟨_, hline, hparse⟩ := bind_eq_ok_iff.mp hparse
  obtain ⟨_, hend, -⟩ := bind_eq_ok_iff.mp hparse
  split_ifs at hline with hslash
  · obtain ⟨line, back, hline⟩ :=
      of_parseResponseLine ⟨hd, rfl⟩ hword hslash hafter hline hend
    exact ⟨.response line, back, hline⟩
  · obtain ⟨line, back, hline⟩ :=
      of_parseRequestLine ⟨hd, rfl⟩ hword hslash hafter hline hend
    exact ⟨.request line, back, hline⟩

/-- The type of a parsed message is a matter of its first word: a request has no slash there. -/
theorem type_parsePmsg {d : Bytes} {m : Pmsg} {ret : ℕ} (hparse : parsePmsg d = .ok (m, ret)) :
    m.type = .req ↔ 47 ∉ d.takeWhile (· != 32) := by
  obtain ⟨result, hstart, hparse⟩ := bind_eq_ok_iff.mp hparse
  obtain ⟨_, -, hparse⟩ := bind_eq_ok_iff.mp hparse
  obtain ⟨rfl, -⟩ := Prod.mk.inj (Except.ok.inj hparse)
  obtain ⟨line, back, rfl⟩ := exists_of_parseStartLine hstart
  rw [parseStartLine_text] at hstart
  obtain rfl := Except.ok.inj hstart
  have hfirst (word after : Bytes) (hword : OneWord word) :
      (word ++ 32 :: after).takeWhile (· != 32) = word := by
    refine takeWhile_append_stop (fun b hb ↦ by simpa using (hword b hb).1) fun b hb ↦ ?_
    rw [← Option.some.inj hb]
    rfl
  cases line with
  | request line =>
    simp only [StartLine.text, RequestLine.bytes, append_assoc, cons_append,
      hfirst _ _ line.method_word]
    exact iff_of_true rfl line.method_slash
  | response line =>
    simp only [StartLine.text, ResponseLine.bytes, append_assoc, cons_append,
      hfirst _ _ line.proto_word]
    exact iff_of_false nofun (not_not_intro line.proto_slash)

end WisCam.Message
