import Mathlib.Data.Nat.Digits.Defs
import WisCam.Message.Building
import WisCam.Server.Rtsp

/-!
# Replies

What `tcp_send_pmsg` prints is a message again: `parse_pmsg` takes it apart into the protocol word,
the code, the reason and the headers of the reply, with a Content-Length header behind them for a
reply with a body. Together with `parsePmsg_request` this is the round trip between the two
functions. It fails at a line that starts with a space, which the parser takes for a continuation
and refuses, and at a protocol word that ends the line.

The replies of the RTSP handlers all start from `rtsp_create_reply`, which copies the CSeq headers
of the request as far as they fit (`reads_rtspCreateReply`). How much room they leave is a matter of
their lengths alone (`replyRoom`).
-/

set_option autoImplicit false

namespace WisCam.Server

open Foundations Message List

/-! ### Printing -/

/-- What `tcp_send_pmsg` prints for a message with a body of `len` bytes or none. -/
def printedReply (m : Pmsg) (len : Option ℕ) : Option Bytes :=
  match m.sl with
  | .req _ _ => none
  | .stat code reason => some (printPmsg m code reason len)

/-- The header that is printed behind those of the reply. -/
def contentLength (len : Option ℕ) : List (Bytes × Bytes) :=
  match len with
  | some len => [(ascii "Content-Length", decimal len)]
  | none => []

/-- The line of a header. -/
def headerLine (header : Bytes × Bytes) : Bytes :=
  header.1 ++ ascii ": " ++ header.2 ++ ascii "\r\n"

theorem printPmsg_eq {m : Pmsg} {proto reason : Bytes} {code reasonAt : ℕ} {len : Option ℕ}
    (hproto : m.protoId.map m.text = some proto) (hreason : m.text reasonAt = reason) :
    printPmsg m code (some reasonAt) len =
      proto ++ [32] ++ decimal code ++ [32] ++ reason ++ ascii "\r\n" ++
        (m.headers ++ contentLength len).flatMap headerLine ++ ascii "\r\n" := by
  have hheaders : (m.fields.flatMap fun field ↦
      m.text field.name ++ ascii ": " ++ m.text field.value ++ ascii "\r\n") =
        m.headers.flatMap headerLine := by
    rw [Pmsg.headers, flatMap_map]
    rfl
  unfold printPmsg
  dsimp only
  rw [hproto, Option.map_some, hreason, hheaders, flatMap_append]
  cases len with
  | none => simp only [contentLength, flatMap_nil, append_nil, Option.getD_some]
  | some len =>
    simp only [contentLength, flatMap_cons, flatMap_nil, append_nil,
      Option.getD_some, append_assoc, headerLine]
    rfl

theorem length_flatMap_headerLine (headers : List (Bytes × Bytes)) :
    (headers.flatMap headerLine).length = headersSize headers + 2 * headers.length := by
  have hcolon : (ascii ": ").length = 2 := by decide
  have hbreak : (ascii "\r\n").length = 2 := by decide
  induction headers with
  | nil => rfl
  | cons header headers ih =>
    rw [flatMap_cons, length_append, ih, headersSize, length_cons]
    simp only [headerLine, length_append]
    omega

variable {m : Pmsg} {proto reason : Bytes} {code : ℕ} {headers : List (Bytes × Bytes)}

/-- The length of what is printed for a reply. -/
theorem length_printedReply (hm : m.Reads proto code reason headers) {len : Option ℕ} {text : Bytes}
    (htext : printedReply m len = some text) :
    text.length = proto.length + (decimal code).length + reason.length + 6 +
      ((m.headers ++ contentLength len).flatMap headerLine).length := by
  obtain ⟨reasonAt, hsl, hreason⟩ := hm.response.2.1
  have hbreak : (ascii "\r\n").length = 2 := by decide
  rw [printedReply, hsl] at htext
  rw [← Option.some.inj htext, printPmsg_eq hm.response.1 hreason]
  simp only [length_append, length_singleton]
  omega

/-- A reply that was built in 512 bytes fits the array of `tcp_send_pmsg`. -/
theorem printedReply_lt (hm : m.Reads proto code reason headers) (hbounded : m.Bounded 512)
    (hcode : code < 1000) {len : Option ℕ} (hlen : ∀ n ∈ len, n < 100000) {text : Bytes}
    (htext : printedReply m len = some text) : text.length < 2048 := by
  have hdigits : (decimal code).length ≤ 3 := by
    rw [decimal, length_map]
    exact Nat.toDigits_length 10 code 3 (by decide) hcode
  have hbody : headersSize (contentLength len) + 2 * (contentLength len).length ≤ 23 := by
    cases len with
    | none => exact Nat.zero_le _
    | some n =>
      have hcount := Nat.toDigits_length 10 n 5 (by decide) (hlen n rfl)
      have hname : (ascii "Content-Length").length = 14 := by decide
      simp only [contentLength, headersSize, length_singleton, decimal, length_map]
      omega
  have hentries : headers.length ≤ 32 := by
    rw [← hm.response.2.2, Pmsg.headers, length_map]
    exact hbounded.length_fields
  have hsize := hm.size_le
  have hbuffer := hbounded.length_msg
  rw [length_printedReply hm htext, hm.response.2.2, flatMap_append, length_append,
    length_flatMap_headerLine, length_flatMap_headerLine]
  omega

theorem isDigit_oneLine {text : Bytes} (htext : ∀ b ∈ text, isDigit b = true) : OneLine text := by
  intro b hb hends
  have hdigit := htext b hb
  rcases hends with rfl | rfl | rfl <;> exact absurd hdigit (by decide)

/-- The Content-Length header, as a header that may stand in a message. -/
def contentLengthHeader (len : ℕ) : Header where
  name := ascii "Content-Length"
  value := decimal len
  name_plain := List.all_iff_forall_prop.mp (by decide)
  name_start := by decide
  value_line := isDigit_oneLine fun _ ↦ isDigit_of_mem_decimal
  value_start := by
    intro b hb
    have hdigit : isDigit b = true := isDigit_of_mem_decimal (List.mem_of_mem_head? hb)
    constructor <;> rintro rfl <;> exact absurd hdigit (by decide)

/-- The response with the Content-Length header that is printed for a body of `len` bytes. -/
def withContentLength (response : WrittenResponse) (len : Option ℕ) : WrittenResponse :=
  { response with headers := response.headers ++ (len.map contentLengthHeader).toList }

theorem pairs_withContentLength (response : WrittenResponse) (len : Option ℕ) :
    ((withContentLength response len).headers.map fun header ↦ header.pair) =
      (response.headers.map fun header ↦ header.pair) ++ contentLength len := by
  cases len with
  | none => simp [withContentLength, contentLength]
  | some len => simp [withContentLength, contentLength, contentLengthHeader, Header.pair]

theorem text_withContentLength {m : Pmsg} {response : WrittenResponse} {reasonAt : ℕ}
    (len : Option ℕ) (hproto : m.protoId.map m.text = some response.proto)
    (hreason : m.text reasonAt = response.reason)
    (hheaders : m.headers = response.headers.map fun header ↦ header.pair) :
    printPmsg m response.code (some reasonAt) len = (withContentLength response len).text := by
  have hlines : (m.headers ++ contentLength len).flatMap headerLine =
      (withContentLength response len).headers.flatMap Header.text := by
    rw [hheaders, ← pairs_withContentLength, flatMap_map]
    rfl
  rw [printPmsg_eq hproto hreason, hlines]
  rfl

/-- Parsing inverts printing. A response with at most 31 headers is read back from what
`tcp_send_pmsg` prints, whatever follows it, and so is a written request with at most 32; the number
returned is the length of the head. The response has to fit the array of `tcp_send_pmsg`, its
protocol word has to stay on its line, and spaces in front of a colon have to come after a name:
otherwise the parser refuses the message. -/
theorem parsePmsg_inverts_printing :
    (∀ (m : Pmsg) (response : WrittenResponse) (len : Option ℕ) (body : Bytes),
        m.IsResponse response.proto response.code response.reason
          (response.headers.map fun header ↦ header.pair) →
        response.headers.length ≤ 31 → OneLine response.proto →
        (withContentLength response len).text.length < 2048 →
        ∃ text parsed, printedReply m len = some text ∧ text.length < 2048 ∧
          parsePmsg (text ++ body) = .ok (parsed, text.length) ∧
          parsed.IsResponse response.proto response.code response.reason
            (m.headers ++ contentLength len)) ∧
      ∀ (request : WrittenRequest) (body : Bytes), request.headers.length ≤ 32 →
        (∀ header ∈ request.headers, header.spaces ≠ 0 → header.name ≠ []) →
        ∃ parsed, parsePmsg (request.text ++ body) = .ok (parsed, request.text.length) ∧
          parsed.type = .req ∧
          parsed.IsRequest request.method request.uri request.proto
            (request.headers.map fun header ↦ header.pair) ∧
          ∀ name, getHeader parsed name =
            (request.headers.find? fun header ↦ sameNoCase header.name name).map
              fun header ↦ header.value := by
  constructor
  · rintro m response len body ⟨hproto, ⟨reasonAt, hsl, hreason⟩, hheaders⟩ hcount hline hshort
    have htext := text_withContentLength len hproto hreason hheaders
    have hroom : (withContentLength response len).headers.length ≤ maxFields := by
      rw [withContentLength, length_append]
      have hone : ((len.map contentLengthHeader).toList).length ≤ 1 := by
        cases len <;> simp
      exact Nat.add_le_add hcount hone
    obtain ⟨parsed, hparse, hparsed⟩ :=
      parsePmsg_response (withContentLength response len) body hroom hline
    refine ⟨_, parsed, by rw [printedReply, hsl], ?_, ?_, ?_⟩
    · rw [htext]
      exact hshort
    · rw [htext]
      exact hparse
    · rw [hheaders, ← pairs_withContentLength]
      exact hparsed
  · intro request body hcount hnames
    obtain ⟨parsed, hparse, hparsed⟩ := parsePmsg_request request body hcount hnames
    refine ⟨parsed, hparse, ?_, hparsed, fun name ↦ ?_⟩
    · obtain ⟨-, ⟨methodAt, uriAt, hsl, -⟩, -⟩ := hparsed
      rw [Pmsg.type, hsl]
    · rw [getHeader_eq, hparsed.2.2, List.find?_map, Option.map_map]
      rfl

/-- A reply as the server builds it. -/
def sampleReply : Pmsg :=
  (addHeader ⟨ascii "RTSP/1.0\x00OK\x00", 512, [], some 0, .stat 200 (some 9)⟩ (ascii "CSeq")
    (ascii "7")).1

/-- The same reply as it is printed. -/
def sampleResponse : WrittenResponse where
  proto := ascii "RTSP/1.0"
  code := 200
  reason := ascii "OK"
  headers := [⟨ascii "CSeq", ascii "7", List.all_iff_forall_prop.mp (by decide), by decide,
    by decide, by rintro b ⟨⟩; decide⟩]
  proto_slash := by decide
  proto_space := by decide
  code_digits := by decide
  reason_line := by decide
  reason_start := by decide

/-- A request whose only header has this name, with a space in front of the colon. -/
def sampleRequest (name : Bytes) (hplain : ∀ b ∈ name, b ≠ 32 ∧ b ≠ 58 ∧ ¬ EndsLine b)
    (hstart : name.head? ≠ some 9) : WrittenRequest where
  method := ascii "OPTIONS"
  gap := 1
  uri := ascii "*"
  gap' := 1
  proto := ascii "RTSP/1.0"
  headers := [⟨⟨name, ascii "7", hplain, hstart, by decide,
    by rintro b ⟨⟩; decide⟩, 1, [], nofun⟩]
  method_ne := by decide
  method_word := by decide
  method_slash := by decide
  uri_ne := by decide
  uri_word := by decide
  gap_pos := by decide
  gap_pos' := by decide
  proto_line := by decide
  proto_start := by decide

theorem parsePmsg_inverts_sample :
    (∃ text parsed, printedReply sampleReply (some 5) = some text ∧
      parsePmsg (text ++ ascii "v=0\r\n") = .ok (parsed, text.length) ∧
      parsed.IsResponse (ascii "RTSP/1.0") 200 (ascii "OK")
        [(ascii "CSeq", ascii "7"), (ascii "Content-Length", ascii "5")]) ∧
    ∃ parsed, parsePmsg (ascii "OPTIONS * RTSP/1.0\r\nCSeq :7\r\n\r\n") = .ok (parsed, 31) ∧
      getHeader parsed (ascii "cseq") = some (ascii "7") := by
  have hplain : ∀ b ∈ ascii "CSeq", b ≠ 32 ∧ b ≠ 58 ∧ ¬ EndsLine b :=
    all_iff_forall_prop.mp (by decide)
  have hreply : sampleReply.IsResponse (ascii "RTSP/1.0") 200 (ascii "OK")
      [(ascii "CSeq", ascii "7")] :=
    ⟨by decide, ⟨9, by decide, by decide⟩, by decide⟩
  have hline : OneLine (ascii "RTSP/1.0") := by decide
  constructor
  · obtain ⟨text, parsed, htext, -, hparse, hparsed⟩ := parsePmsg_inverts_printing.1 sampleReply
      sampleResponse (some 5) (ascii "v=0\r\n") hreply (by decide) hline (by decide)
    exact ⟨text, parsed, htext, hparse, hparsed⟩
  · obtain ⟨parsed, hparse, -, -, hget⟩ := parsePmsg_inverts_printing.2
      (sampleRequest (ascii "CSeq") hplain (by decide)) [] (by simp [sampleRequest])
      (by simp [sampleRequest, ascii])
    exact ⟨parsed, hparse, hget (ascii "cseq")⟩

/-- A header line without a name but with a space before its colon is refused, and so is a reply
whose protocol word has a CR in it. -/
theorem parsePmsg_refuses_written :
    (∃ request : WrittenRequest, request.headers.length ≤ 32 ∧
      parsePmsg request.text = .error .malformed) ∧
    ∃ (m : Pmsg) (response : WrittenResponse) (text : Bytes),
      m.IsResponse response.proto response.code response.reason
        (response.headers.map fun header ↦ header.pair) ∧ response.headers.length ≤ 31 ∧
      printedReply m none = some text ∧ parsePmsg text = .error .malformed := by
  refine ⟨⟨sampleRequest [] (by simp) (by simp), by decide, by decide⟩,
    ⟨⟨ascii "A/\rB\x00OK\x00", 512, [], some 0, .stat 200 (some 5)⟩,
      { sampleResponse with
        proto := ascii "A/\rB", headers := [], proto_slash := by decide, proto_space := by decide },
      _, ⟨by decide, ⟨5, rfl, by decide⟩, rfl⟩, by decide, rfl, by decide⟩⟩

/-! ### The replies of the handlers -/

/-- A reply before the headers of the request are copied. -/
def blankReply (code : ℕ) (reason : Bytes) : Pmsg :=
  ⟨ascii "RTSP/1.0" ++ [0] ++ reason ++ [0], 512, [], some 0, .stat code (some 9)⟩

/-- The CSeq headers of a request. -/
def cseqHeaders (req : Req) : List (Bytes × Bytes) := headersNamed req.msg (ascii "CSeq")

/-- A reason that fits into a reply. -/
def ShortReason (reason : Bytes) : Prop := (0 : UInt8) ∉ reason ∧ reason.length ≤ 502

theorem rtspCreateReply_eq (req : Req) (code : ℕ) {reason : Bytes} (hreason : ShortReason reason) :
    rtspCreateReply req code reason =
      copyHeaders (blankReply code reason) req.msg (ascii "CSeq") := by
  have hproto : addPmsgString (newPmsg 512 (.stat code none)) (ascii "RTSP/1.0") =
      (⟨ascii "RTSP/1.0" ++ [0], 512, [], none, .stat code none⟩, some 0) :=
    addPmsgString_of_le (show 0 + ((ascii "RTSP/1.0").length + 1) ≤ 512 by decide)
  have hfits : (ascii "RTSP/1.0" ++ [0]).length + (reason.length + 1) ≤ 512 := by
    have hnine : (ascii "RTSP/1.0" ++ [0]).length = 9 := by decide
    have hshort := hreason.2
    omega
  have hboth : addPmsgString ⟨ascii "RTSP/1.0" ++ [0], 512, [], none, .stat code none⟩ reason =
      (⟨ascii "RTSP/1.0" ++ [0] ++ reason ++ [0], 512, [], none, .stat code none⟩, some 9) :=
    addPmsgString_of_le hfits
  rw [rtspCreateReply, hproto]
  dsimp only
  rw [hboth]
  rfl

theorem length_blankReply (code : ℕ) (reason : Bytes) :
    (blankReply code reason).msg.length = 10 + reason.length := by
  simp only [blankReply, length_append, length_singleton]
  have hproto : (ascii "RTSP/1.0").length = 8 := by decide
  omega

theorem reads_blankReply (code : ℕ) {reason : Bytes} (hreason : ShortReason reason) :
    (blankReply code reason).Reads (ascii "RTSP/1.0") code reason [] := by
  obtain ⟨⟨hprotoEnd, hproto⟩, hreasonEnd, hreasonText⟩ :=
    stored_twice [] (ascii "RTSP/1.0") reason
  rw [cstr_eq_self hreason.1] at hreasonText
  refine ⟨⟨congrArg some hproto, ⟨9, rfl, hreasonText⟩, rfl⟩, nofun, ?_, ?_, ?_⟩
  · rintro offset ⟨⟩
    exact hprotoEnd
  · rintro code offset ⟨⟩
    exact hreasonEnd
  · have hproto : (ascii "RTSP/1.0").length = 8 := by decide
    rw [length_blankReply, headersSize]
    omega

/-- A reply of the handlers before they add their own headers: the CSeq headers that fit. -/
theorem reads_rtspCreateReply (req : Req) (code : ℕ) {reason : Bytes}
    (hreason : ShortReason reason) :
    (rtspCreateReply req code reason).Reads (ascii "RTSP/1.0") code reason
      (kept (blankReply code reason) (cseqHeaders req)) := by
  rw [rtspCreateReply_eq req code hreason, copyHeaders_eq]
  exact (reads_blankReply code hreason).addAll fun header hheader ↦ headersNamed_zero hheader

theorem bounded_rtspCreateReply (req : Req) (code : ℕ) {reason : Bytes}
    (hreason : ShortReason reason) : (rtspCreateReply req code reason).Bounded 512 := by
  rw [rtspCreateReply_eq req code hreason, copyHeaders_eq]
  refine Pmsg.Bounded.addAll ⟨rfl, ?_, Nat.zero_le _⟩
  rw [length_blankReply]
  have hshort := hreason.2
  omega

/-! ### Room for headers -/

/-- What is used of a message of 512 bytes and 32 headers, and how long the lines of the headers
are. -/
@[ext] structure Room where
  used : ℕ
  entries : ℕ
  lines : ℕ

/-- A header with strings of these lengths fits. -/
def Room.Holds (room : Room) (name value : ℕ) : Prop :=
  room.entries ≠ 32 ∧ room.used + (name + 1) + (value + 1) ≤ 512

instance (room : Room) (name value : ℕ) : Decidable (room.Holds name value) :=
  inferInstanceAs (Decidable (_ ∧ _))

/-- The room after a header was added, or its name if there was room for no more than that. -/
def Room.add (room : Room) (name value : ℕ) : Room :=
  if room.Holds name value then
    ⟨room.used + (name + 1) + (value + 1), room.entries + 1, room.lines + (name + value + 4)⟩
  else if room.entries ≠ 32 ∧ room.used + (name + 1) ≤ 512 then
    { room with used := room.used + (name + 1) }
  else room

/-- The room that a message takes. -/
def Pmsg.room (m : Pmsg) : Room :=
  ⟨m.msg.length, m.fields.length, (m.headers.flatMap headerLine).length⟩

/-- The room of a reply with this reason and the CSeq headers of the request. -/
def replyRoom (reason : Bytes) (req : Req) : Room :=
  (cseqHeaders req).foldl (fun room header ↦ room.add header.1.length header.2.length)
    ⟨10 + reason.length, 0, 0⟩

variable {name value : Bytes}

theorem hasRoom_iff (hlen : m.maxLen = 512) :
    m.HasRoom name value ↔ (Pmsg.room m).Holds name.length value.length := by
  rw [Pmsg.HasRoom, hlen]
  rfl

/-- The table and the buffer after `add_header`. -/
theorem used_addHeader (hm : m.Reads proto code reason headers) (hlen : m.maxLen = 512) :
    (Pmsg.room (addHeader m name value).1).used =
        ((Pmsg.room m).add name.length value.length).used ∧
      (Pmsg.room (addHeader m name value).1).entries =
        ((Pmsg.room m).add name.length value.length).entries := by
  have hadded := addHeader_added m name value
  have hlength := length_msg_addHeader m name value
  have hentries := congrArg List.length (hadded.reads hm).response.2.2
  rw [← hm.response.2.2, length_append, Pmsg.headers, Pmsg.headers, length_map, length_map]
    at hentries
  have hroom := @hasRoom_iff m name value hlen
  rw [hlen] at hlength
  unfold Room.add
  by_cases hfits : m.HasRoom name value
  · rw [if_pos (hadded.result_eq_zero_iff.mpr hfits)] at hentries
    rw [if_pos hfits] at hlength
    rw [if_pos (hroom.mp hfits)]
    exact ⟨hlength, hentries⟩
  · rw [if_neg (hadded.result_eq_zero_iff.not.mpr hfits)] at hentries
    rw [if_neg hfits] at hlength
    rw [if_neg (hroom.not.mp hfits)]
    by_cases hpart : (Pmsg.room m).entries ≠ 32 ∧ (Pmsg.room m).used + (name.length + 1) ≤ 512
    · rw [if_pos hpart]
      exact ⟨hlength.trans (if_pos hpart), hentries⟩
    · rw [if_neg hpart]
      exact ⟨hlength.trans (if_neg hpart), hentries⟩

theorem room_addHeader (hm : m.Reads proto code reason headers) (hlen : m.maxLen = 512)
    (hname : (0 : UInt8) ∉ name) (hvalue : (0 : UInt8) ∉ value) :
    Pmsg.room (addHeader m name value).1 = (Pmsg.room m).add name.length value.length := by
  obtain ⟨hused, hentries⟩ := @used_addHeader m _ _ _ _ name value hm hlen
  have hadded := addHeader_added m name value
  have hheaders := (hadded.reads hm).response.2.2
  rw [cstr_eq_self hname, cstr_eq_self hvalue, ← hm.response.2.2] at hheaders
  have hlines := congrArg (fun headers ↦ (headers.flatMap headerLine).length) hheaders
  simp only [flatMap_append, length_append] at hlines
  refine Room.ext hused hentries (hlines.trans ?_)
  have hroom := @hasRoom_iff m name value hlen
  unfold Room.add
  by_cases hfits : m.HasRoom name value
  · have hone := length_flatMap_headerLine [(name, value)]
    simp only [headersSize, length_singleton] at hone
    rw [if_pos (hadded.result_eq_zero_iff.mpr hfits), if_pos (hroom.mp hfits), hone]
    rfl
  · rw [if_neg (hadded.result_eq_zero_iff.not.mpr hfits), if_neg (hroom.not.mp hfits)]
    split_ifs <;> rfl

/-- Headers that are added one after another. -/
theorem room_addAll {added : List (Bytes × Bytes)} (hm : m.Reads proto code reason headers)
    (hlen : m.maxLen = 512)
    (hzero : ∀ header ∈ added, (0 : UInt8) ∉ header.1 ∧ (0 : UInt8) ∉ header.2) :
    Pmsg.room (added.foldl (fun m header ↦ (addHeader m header.1 header.2).1) m) =
      added.foldl (fun room header ↦ room.add header.1.length header.2.length) (Pmsg.room m) := by
  induction added generalizing m headers with
  | nil => rfl
  | cons header added ih =>
    obtain ⟨hheader, hlater⟩ := forall_mem_cons.mp hzero
    have hadded := addHeader_added m header.1 header.2
    rw [foldl_cons, foldl_cons, ← room_addHeader hm hlen hheader.1 hheader.2]
    exact ih (hadded.reads hm) (hadded.grows.2.trans hlen) hlater

theorem room_rtspCreateReply (req : Req) (code : ℕ) {reason : Bytes}
    (hreason : ShortReason reason) :
    Pmsg.room (rtspCreateReply req code reason) = replyRoom reason req := by
  have hblank : Pmsg.room (blankReply code reason) = ⟨10 + reason.length, 0, 0⟩ := by
    rw [← length_blankReply code reason]
    rfl
  rw [rtspCreateReply_eq req code hreason, copyHeaders_eq,
    room_addAll (reads_blankReply code hreason) rfl fun header hheader ↦ headersNamed_zero hheader,
    hblank]
  rfl

theorem shortReason_ok : ShortReason (ascii "OK") := ⟨by decide, by decide⟩

theorem sameNoCase_of_mem_kept {m : Pmsg} {req : Req} {header : Bytes × Bytes}
    (hheader : header ∈ kept m (cseqHeaders req)) :
    sameNoCase header.1 (ascii "CSeq") = true :=
  (mem_filter.mp ((kept_sublist m _).subset hheader)).2

/-- A reply has no header with another name before one is added. -/
theorem getHeader_rtspCreateReply_of_ne (req : Req) (code : ℕ) {reason name : Bytes}
    (hreason : ShortReason reason) (hne : sameNoCase (ascii "CSeq") name = false) :
    getHeader (rtspCreateReply req code reason) name = none := by
  rw [getHeader_eq, (reads_rtspCreateReply req code hreason).response.2.2, Option.map_eq_none_iff,
    List.find?_eq_none]
  exact fun header hheader ↦ not_sameNoCase (sameNoCase_of_mem_kept hheader) hne

end WisCam.Server
