import WisCam.Foundations.Bytes
import WisCam.Foundations.Fallible

/-!
# Protocol messages

`pmsg.c` and `pmsg.h`. An RTSP or HTTP message is one buffer together with pointers into it. A
pointer is an offset here, and the string it designates is what stands in the buffer from that
offset to the next NUL (`Pmsg.text`).

`parsePmsg` is `parse_pmsg` on the bytes of a buffer. It works as the code does, on the buffer and
an index: words are cut out by storing a NUL after them. A `return -1` is the outcome `malformed`.
The accesses that the code does not guard by a comparison with the length are checked here, and one
outside the buffer or the header table is an outcome of its own (`ParseStop`), so that what the
code promises about them can be stated. `add_pmsg_string`, `add_header` and the functions over them
fill the buffer of a reply.
-/

set_option autoImplicit false

namespace WisCam.Message

open Foundations

/-! ### Messages -/

/-- `MAX_FIELDS`. -/
def maxFields : ℕ := 32

/-- `struct hdrf`: where the name and the value of a header start. -/
structure Hdrf where
  name : ℕ
  value : ℕ
  deriving DecidableEq, Repr

/-- `PMSG_REQ` and `PMSG_RESP`. -/
inductive MsgType
  | req
  | resp
  deriving DecidableEq, Repr

/-- The union `sl`, with the member that was stored: the method and the URI of a request, or the
code and the reason of a response. -/
inductive StatusLine
  | req (method uri : ℕ)
  | stat (code : ℕ) (reason : Option ℕ)
  deriving DecidableEq, Repr

/-- `struct pmsg`: the used part of the buffer, its capacity, the counted headers, the protocol
word and the status line. -/
structure Pmsg where
  msg : Bytes
  maxLen : ℕ
  fields : List Hdrf
  protoId : Option ℕ
  sl : StatusLine
  deriving DecidableEq, Repr

/-- The member `type`: it is set together with the status line. -/
def Pmsg.type (m : Pmsg) : MsgType :=
  match m.sl with
  | .req _ _ => .req
  | .stat _ _ => .resp

def Pmsg.text (m : Pmsg) (offset : ℕ) : Bytes := cstr (m.msg.drop offset)

/-- `get_header`: the value of the first header with this name, whatever its letter case. -/
def getHeader (m : Pmsg) (name : Bytes) : Option Bytes :=
  (m.fields.find? fun field ↦ sameNoCase (m.text field.name) name).map fun field ↦
    m.text field.value

/-! ### Parsing -/

/-- How `parse_pmsg` ends without a message: it returns -1, or it reads or writes outside the
buffer, or it stores a header outside the table. `endless` is the loop running out of fuel. -/
inductive ParseStop
  | malformed
  | readOutside
  | writeOutside
  | fieldOutside
  | endless
  deriving DecidableEq, Repr

/-- Returns -1 unless the condition holds. -/
def require (condition : Bool) : Except ParseStop Unit :=
  if condition then .ok () else .error .malformed

@[simp] theorem require_true : require true = .ok () := rfl

theorem of_require_bind {condition : Bool} {α : Type} {next : Unit → Except ParseStop α} {a : α}
    (h : (require condition >>= next) = .ok a) : condition = true ∧ next () = .ok a := by
  cases condition with
  | true => exact ⟨rfl, h⟩
  | false => exact absurd h nofun

/-- The read `d[i]`. -/
def byteAt (d : Bytes) (i : ℕ) : Except ParseStop UInt8 :=
  match d[i]? with
  | some b => .ok b
  | none => .error .readOutside

/-- The store `d[i] = 0`. -/
def putNul (d : Bytes) (i : ℕ) : Except ParseStop Bytes :=
  if i < d.length then .ok (d.set i 0) else .error .writeOutside

/-- `delim`: the number of bytes before the first terminator, CR or LF. -/
def delim (d : Bytes) (term1 term2 : UInt8) : ℕ :=
  (d.takeWhile fun b ↦ !(b == term1 || b == term2 || b == 13 || b == 10)).length

/-- `while (i < len && d[i] == ' ') ++i`. -/
def skipSpaces (d : Bytes) (i : ℕ) : ℕ := i + ((d.drop i).takeWhile (· == 32)).length

/-- Ends the word at `start` at the space after it, which has to be there, and skips the spaces that
follow. -/
def cutWord (d : Bytes) (start : ℕ) : Except ParseStop (Bytes × ℕ) := do
  let i := start + delim (d.drop start) 32 0
  require (d[i]? == some 32)
  let d ← putNul d i
  return (d, skipSpaces d (i + 1))

/-- Ends the text at `start` at the NUL, CR or LF after it. -/
def cutLine (d : Bytes) (start : ℕ) : Except ParseStop (Bytes × ℕ) := do
  let i := start + delim (d.drop start) 0 0
  let d ← putNul d i
  return (d, i + 1)

/-- The first line of a response, up to the byte after its reason. The byte after the first word is
read without a look at the length. -/
def parseResponseLine (d : Bytes) : Except ParseStop (Bytes × ℕ × ℕ × StatusLine) := do
  let _ ← byteAt d (delim d 32 0)
  let (d, i) ← cutWord d 0
  match d.drop i with
  | a :: b :: c :: e :: _ =>
    require (isDigit a && isDigit b && isDigit c && e == 32)
    let reason := skipSpaces d (i + 4)
    let (d, i) ← cutLine d reason
    return (d, i, 0, .stat (digitsValue 0 [a, b, c]) (some reason))
  | _ => throw .malformed

/-- The first line of a request, up to the byte after its protocol word. -/
def parseRequestLine (d : Bytes) : Except ParseStop (Bytes × ℕ × ℕ × StatusLine) := do
  let (d, uri) ← cutWord d 0
  let (d, proto) ← cutWord d uri
  let (d, i) ← cutLine d proto
  return (d, i, proto, .req 0 uri)

/-- `if (i < len && d[i] == '\r') ++i`. -/
def skipCr (d : Bytes) (i : ℕ) : ℕ := if d[i]? = some 13 then i + 1 else i

/-- The end of the first line: spaces, a CR that is still there, and the LF. -/
def parseLineEnd (d : Bytes) (i : ℕ) : Except ParseStop ℕ := do
  let i := skipCr d (skipSpaces d i)
  require (d[i]? == some 10)
  return i + 1

/-- The first line. Responses begin with a word that has a slash in it; the search for the slash
looks for the first slash or space. -/
def parseStartLine (d : Bytes) : Except ParseStop (Bytes × ℕ × ℕ × StatusLine) := do
  require (4 ≤ d.length)
  let i := (d.takeWhile fun b ↦ !(b == 32 || b == 47)).length
  require (i != d.length)
  let (d, i, protoId, sl) ← if d[i]? = some 47 then parseResponseLine d else parseRequestLine d
  let i ← parseLineEnd d i
  return (d, i, protoId, sl)

/-- The name of a header and the spaces after it, up to the colon. -/
def parseName (d : Bytes) (name : ℕ) : Except ParseStop (Bytes × ℕ) := do
  let i := name + delim (d.drop name) 32 58
  require (i < d.length)
  if d[i]? = some 32 then do
    let d ← putNul d i
    return (d, skipSpaces d (i + 1))
  else return (d, i)

/-- The rest of a header line from its colon on: the offset of the value and the next line. -/
def parseValue (d : Bytes) (colon : ℕ) : Except ParseStop (Bytes × ℕ × ℕ) := do
  require (d[colon]? == some 58)
  let d ← putNul d colon
  let value := colon + 1 + ((d.drop (colon + 1)).takeWhile fun b ↦ b == 32 || b == 9).length
  let (d, i) ← cutLine d value
  require (d[i]? == some 10)
  return (d, i + 1, value)

/-- One header line from its name on. -/
def parseField (d : Bytes) (name : ℕ) : Except ParseStop (Bytes × ℕ × Hdrf) := do
  let (d, colon) ← parseName d name
  let (d, i, value) ← parseValue d colon
  return (d, i, ⟨name, value⟩)

/-- The loop over the header lines. The store of a header's name comes before the rest of its line
is looked at. -/
def parseHeaders : ℕ → Bytes → ℕ → List Hdrf → Except ParseStop (Bytes × ℕ × List Hdrf)
  | 0, _, _, _ => .error .endless
  | fuel + 1, d, i, fields => do
    let i := skipCr d i
    if i = d.length then return (d, i, fields)
    else
      let b ← byteAt d i
      if b = 10 then return (d, i + 1, fields)
      else
        require (b != 9 && b != 32)
        if maxFields ≤ fields.length then throw .fieldOutside
        else
          let (d, i, field) ← parseField d i
          parseHeaders fuel d i (fields ++ [field])

/-- `parse_pmsg`: the message and the number of bytes of its head. -/
def parsePmsg (d : Bytes) : Except ParseStop (Pmsg × ℕ) := do
  let (d, i, protoId, sl) ← parseStartLine d
  let (d, ret, fields) ← parseHeaders (d.length + 1) d i []
  return (⟨d, d.length, fields, some protoId, sl⟩, ret)

/-! ### Building replies -/

/-- `new_pmsg`. The type and the status line are set by the caller. -/
def newPmsg (size : ℕ) (sl : StatusLine) : Pmsg := ⟨[], size, [], none, sl⟩

/-- `add_pmsg_string`: appends a string and its NUL, or does nothing when they do not fit. -/
def addPmsgString (m : Pmsg) (s : Bytes) : Pmsg × Option ℕ :=
  if m.msg.length + (s.length + 1) > m.maxLen then (m, none)
  else ({ m with msg := m.msg ++ s ++ [0] }, some m.msg.length)

/-- `add_header`. A name that fits stays in the buffer when the value does not. -/
def addHeader (m : Pmsg) (name value : Bytes) : Pmsg × ℤ :=
  if m.fields.length = maxFields then (m, -1)
  else
    match addPmsgString m name with
    | (m, none) => (m, -1)
    | (m, some nameAt) =>
      match addPmsgString m value with
      | (m, none) => (m, -1)
      | (m, some valueAt) => ({ m with fields := m.fields ++ [⟨nameAt, valueAt⟩] }, 0)

/-- `add_header_printf`, with the text that `vsnprintf` formats. The value is stored before the
name. -/
def addHeaderPrintf (m : Pmsg) (name value : Bytes) : Pmsg × ℤ :=
  if m.fields.length = maxFields then (m, -1)
  else if m.msg.length + value.length ≥ m.maxLen then (m, -1)
  else
    let valueAt := m.msg.length
    match addPmsgString { m with msg := m.msg ++ value ++ [0] } name with
    | (m, none) => (m, -1)
    | (m, some nameAt) => ({ m with fields := m.fields ++ [⟨nameAt, valueAt⟩] }, 0)

/-- `copy_headers`: every header of `src` with this name is added to `dest`, if it fits. -/
def copyHeaders (dest src : Pmsg) (name : Bytes) : Pmsg :=
  (src.fields.filter fun field ↦ sameNoCase (src.text field.name) name).foldl
    (fun dest field ↦ (addHeader dest (src.text field.name) (src.text field.value)).1) dest

end WisCam.Message
