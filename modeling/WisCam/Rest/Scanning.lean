import Mathlib.Data.List.ReduceOption
import WisCam.Foundations.Fallible
import WisCam.Foundations.Json
import WisCam.Rest.Config

/-!
# The list of networks nearby

`wifi_scanning` reads the output of a scan line by line. Four kinds of lines matter. An address
begins a cell, the name and the channel of a network are kept until the next ones come, and a line
with further data has the network printed. A comma is printed at the first address after that.

`scan_describes_iff` says when the body that is sent is a list of the cells that have such a line,
each with its own name, address and channel. Nothing must be printed before the first address, a
cell must have its lines in order and only one that prints it, the last cell must be printed if any
is, and the texts must stand for themselves in JSON. The number of quotes in the body shows that
nothing else is printed, whatever the texts are.
-/

set_option autoImplicit false

namespace WisCam.Rest

open Foundations Json List

/-! ### Lines of a scan -/

/-- The size of `pReadBuf` in `wifi_scanning`. -/
def scanBufSize : ℕ := 512

/-- The size of each of the arrays `strType`. -/
def strTypeSize : ℕ := 100

/-- The kinds of lines, with the text that `wifi_scanning` copies. -/
inductive ScanLine
  | address (text : Bytes)
  | essid (text : Bytes)
  | channel (text : Bytes)
  | extra
  | other
deriving DecidableEq, Repr

/-- What is found in a line. -/
def scanLine (text : Bytes) : ScanLine :=
  match strstr (ascii " - Address: ") text with
  | some place => .address (text.drop (place + 12))
  | none =>
    match strstr (ascii "    ESSID:") text with
    | some place => .essid (text.drop (place + 10))
    | none =>
      match strstr (ascii " (Channel ") text with
      | some place => .channel (text.drop (place + 10))
      | none => if (strstr (ascii "    Extra:fm=") text).isSome then .extra else .other

def ScanLine.copied : ScanLine → Bytes
  | .address text => text
  | .essid text => text
  | .channel text => text
  | .extra => []
  | .other => []

/-- A channel is cut at the parenthesis that follows it. -/
def beforeParen (text : Bytes) : Bytes := text.takeWhile (· != 41)

/-- The local variables of `wifi_scanning`, and what has been sent after the head of the body. -/
structure Scan where
  bssid : Bytes
  ssid : Bytes
  channel : Bytes
  flag : Bool
  out : Bytes
deriving DecidableEq, Repr

/-- `strWifiMessage`, which has room for three texts of 99 bytes. -/
def Scan.message (s : Scan) : Bytes :=
  ascii "\x7b\"ssid\":" ++ (s.ssid ++ (ascii ",\"bssid\":\"" ++ (s.bssid ++
    (ascii "\",\"channel\":\"" ++ (s.channel ++ ascii "\"\x7d")))))

/-- What is sent at a line. -/
def Scan.prints (s : Scan) : ScanLine → Bytes
  | .address _ => if s.flag then [44] else []
  | .extra => s.message
  | .essid _ => []
  | .channel _ => []
  | .other => []

/-- The turn of the loop for a line. -/
def Scan.advance (s : Scan) (line : ScanLine) : Scan :=
  match line with
  | .address text => { s with bssid := text, flag := false, out := s.out ++ s.prints line }
  | .essid text => { s with ssid := text }
  | .channel text => { s with channel := beforeParen text }
  | .extra => { s with flag := true, out := s.out ++ s.prints line }
  | .other => s

/-- A line as it was read. The last byte of the string in the line buffer is cut off, also if the
string is empty, where this is a byte before the buffer. -/
def scanStep (s : Scan) (line : Bytes) : Except Fault Scan :=
  if line.length = scanBufSize ∨ cstr line = [] then .error .overflow
  else if (scanLine (cstr line).dropLast).copied.length < strTypeSize then
    .ok (s.advance (scanLine (cstr line).dropLast))
  else .error .overflow

def Scan.start : Scan := ⟨[], [], [], false, []⟩

/-- The body around what the lines print. -/
def scanBody (out : Bytes) : Bytes := ascii "\x7b\"wifimessage\": [" ++ (out ++ ascii "]\x7d")

/-- `wifi_scanning`, with whether the scan succeeds and the file that it writes: the body that is
sent, unless it returns -1. -/
def wifiScanning (scanned : Bool) (file : Option Bytes) : Except Fault (Option Bytes) :=
  match scanned, file with
  | true, some text => do
    let s ← (lines scanBufSize text).foldlM scanStep Scan.start
    .ok (some (scanBody s.out))
  | _, _ => .ok none

/-! ### Cells -/

/-- The line does not begin a cell. -/
def ScanLine.own : ScanLine → Bool
  | .address _ => false
  | .essid _ => true
  | .channel _ => true
  | .extra => true
  | .other => true

def ScanLine.essid? : ScanLine → Option Bytes
  | .essid text => some text
  | _ => none

def ScanLine.channel? : ScanLine → Option Bytes
  | .channel text => some (beforeParen text)
  | _ => none

/-- A cell: its address and the lines up to the next one. -/
structure Cell where
  address : Bytes
  lines : List ScanLine
deriving DecidableEq, Repr

def cells : List ScanLine → List Cell
  | [] => []
  | line :: rest =>
    match line with
    | .address text => ⟨text, rest.takeWhile ScanLine.own⟩ :: cells rest
    | _ => cells rest

/-- All lines of a cell. -/
def Cell.all (cell : Cell) : List ScanLine := .address cell.address :: cell.lines

/-- The cell has a line that prints it. -/
def Cell.Reported (cell : Cell) : Prop := .extra ∈ cell.lines

instance (cell : Cell) : Decidable cell.Reported := inferInstanceAs (Decidable (_ ∈ _))

/-- What is reported of a cell. -/
structure Report where
  ssid : Bytes
  bssid : Bytes
  channel : Bytes
deriving DecidableEq, Repr

/-- The text between quotes. -/
def unquote (text : Bytes) : Option Bytes :=
  if text.length ≥ 2 ∧ text.head? = some 34 ∧ text.getLast? = some 34 then
    some text.tail.dropLast
  else none

/-- The name, the address and the channel of a cell, from its own lines before the one that prints
it. -/
def Cell.report (cell : Cell) : Option Report := do
  let before := cell.lines.takeWhile (· != .extra)
  let ssid ← (before.filterMap ScanLine.essid?).getLast?
  let name ← unquote ssid
  let channel ← (before.filterMap ScanLine.channel?).getLast?
  some ⟨name, cell.address, channel⟩

def Report.json (report : Report) : Json :=
  .object [(ascii "ssid", .string report.ssid), (ascii "bssid", .string report.bssid),
    (ascii "channel", .string report.channel)]

/-- The body is a list of the cells that are reported, each with what its own lines say. -/
def DescribesCells (body : Bytes) (list : List ScanLine) : Prop :=
  ∃ reports, ((cells list).filter fun cell ↦ cell.Reported).mapM Cell.report = some reports ∧
    decode body = some (.object [(ascii "wifimessage", .array (reports.map Report.json))])

/-- The texts of a report stand for themselves. -/
def Report.IsClean (report : Report) : Prop :=
  ∀ text ∈ [report.ssid, report.bssid, report.channel], IsPlain text ∧ isUtf8 text = true

instance (report : Report) : Decidable report.IsClean :=
  inferInstanceAs (Decidable (∀ text ∈ [report.ssid, report.bssid, report.channel], _ ∧ _))

/-- A scan that is printed as it should be. -/
structure Regular (list : List ScanLine) : Prop where
  /-- Nothing is printed before the first cell. -/
  preamble : .extra ∉ list.takeWhile ScanLine.own
  /-- No cell is printed twice. -/
  once : ∀ cell ∈ cells list, cell.lines.count .extra ≤ 1
  /-- The cells that are printed have their own lines before, with texts that stand for
  themselves. -/
  complete : ∀ cell ∈ cells list, cell.Reported → ∃ report ∈ cell.report, report.IsClean
  /-- No comma is left behind. -/
  last : (∃ cell ∈ cells list, cell.Reported) → ∀ cell ∈ (cells list).getLast?, cell.Reported

instance (list : List ScanLine) : Decidable (Regular list) :=
  decidable_of_iff
    (.extra ∉ list.takeWhile ScanLine.own ∧
      (∀ cell ∈ cells list, cell.lines.count .extra ≤ 1) ∧
      (∀ cell ∈ cells list, cell.Reported → ∃ report ∈ cell.report, report.IsClean) ∧
      ((∃ cell ∈ cells list, cell.Reported) → ∀ cell ∈ (cells list).getLast?, cell.Reported))
    ⟨fun h ↦ ⟨h.1, h.2.1, h.2.2.1, h.2.2.2⟩,
      fun h ↦ ⟨h.preamble, h.once, h.complete, h.last⟩⟩

/-- The lines of a file. -/
def scanLines (text : Bytes) : List ScanLine :=
  (lines scanBufSize text).map fun line ↦ scanLine (cstr line).dropLast

/-! ### Runs -/

section Runs

variable {s : Scan} {list : List ScanLine}

theorem scanStep_iff {line : Bytes} {s' : Scan} :
    scanStep s line = .ok s' ↔
      (line.length ≠ scanBufSize ∧ cstr line ≠ [] ∧
        (scanLine (cstr line).dropLast).copied.length < strTypeSize) ∧
      s' = s.advance (scanLine (cstr line).dropLast) := by
  rw [scanStep]
  split
  · rename_i hbad
    constructor
    · intro hstep
      cases hstep
    · rintro ⟨⟨hlength, hempty, -⟩, -⟩
      exact absurd hbad (not_or.mpr ⟨hlength, hempty⟩)
  · rename_i hgood
    obtain ⟨hlength, hempty⟩ := not_or.mp hgood
    split
    · rename_i hfits
      rw [Except.ok.injEq]
      constructor
      · rintro rfl
        exact ⟨⟨hlength, hempty, hfits⟩, rfl⟩
      · exact fun hstep ↦ hstep.2.symm
    · rename_i hlong
      constructor
      · intro hstep
        cases hstep
      · exact fun hstep ↦ absurd hstep.1.2.2 hlong

/-- The loop ends without a fault exactly if every line can be read and what is copied from it
fits. -/
theorem foldlM_scanStep_iff {raw : List Bytes} {s' : Scan} :
    raw.foldlM scanStep s = .ok s' ↔
      (∀ line ∈ raw, line.length ≠ scanBufSize ∧ cstr line ≠ [] ∧
        (scanLine (cstr line).dropLast).copied.length < strTypeSize) ∧
      s' = (raw.map fun line ↦ scanLine (cstr line).dropLast).foldl Scan.advance s := by
  induction raw generalizing s with
  | nil =>
    constructor
    · intro hend
      exact ⟨fun _ hmem ↦ absurd hmem not_mem_nil, (Except.ok.inj hend).symm⟩
    · rintro ⟨-, rfl⟩
      rfl
  | cons line raw ih =>
    rw [foldlM_cons, bind_eq_ok_iff, forall_mem_cons, map_cons, foldl_cons]
    constructor
    · rintro ⟨next, hstep, hrest⟩
      obtain ⟨hline, rfl⟩ := scanStep_iff.mp hstep
      obtain ⟨hraw, rfl⟩ := ih.mp hrest
      exact ⟨⟨hline, hraw⟩, rfl⟩
    · rintro ⟨⟨hline, hraw⟩, rfl⟩
      exact ⟨_, scanStep_iff.mpr ⟨hline, rfl⟩, ih.mpr ⟨hraw, rfl⟩⟩

/-- What is sent at a list of lines. -/
def Scan.printed (s : Scan) : List ScanLine → Bytes
  | [] => []
  | line :: rest => s.prints line ++ (s.advance line).printed rest

theorem out_advance (s : Scan) (line : ScanLine) :
    (s.advance line).out = s.out ++ s.prints line := by
  cases line <;> simp [Scan.advance, Scan.prints]

theorem out_foldl (s : Scan) (list : List ScanLine) :
    (list.foldl Scan.advance s).out = s.out ++ s.printed list := by
  induction list generalizing s with
  | nil => exact (append_nil _).symm
  | cons line list ih =>
    rw [foldl_cons, ih, out_advance, Scan.printed, append_assoc]

theorem printed_append (s : Scan) (front back : List ScanLine) :
    s.printed (front ++ back) = s.printed front ++ (front.foldl Scan.advance s).printed back := by
  induction front generalizing s with
  | nil => rfl
  | cons line front ih =>
    rw [cons_append, Scan.printed, ih, Scan.printed, append_assoc, foldl_cons]

/-- Lines between the one that begins a cell and the one that prints it. -/
structure Quiet (list : List ScanLine) : Prop where
  own : ∀ line ∈ list, line.own = true
  silent : .extra ∉ list

theorem Quiet.cons {line : ScanLine} (hquiet : Quiet (line :: list)) :
    line.own = true ∧ line ≠ .extra ∧ Quiet list := by
  obtain ⟨hown, hsilent⟩ := hquiet
  rw [forall_mem_cons] at hown
  rw [mem_cons, not_or] at hsilent
  exact ⟨hown.1, Ne.symm hsilent.1, hown.2, hsilent.2⟩

theorem Quiet.printed (hquiet : Quiet list) (s : Scan) : s.printed list = [] := by
  induction list generalizing s with
  | nil => rfl
  | cons line list ih =>
    obtain ⟨hown, hextra, hquiet⟩ := hquiet.cons
    rw [Scan.printed, ih hquiet, append_nil]
    cases line with
    | address text => cases hown
    | extra => exact absurd rfl hextra
    | essid text | channel text | other => rfl

/-- What is kept after such lines. -/
theorem Quiet.foldl (hquiet : Quiet list) (s : Scan) :
    (list.foldl Scan.advance s).bssid = s.bssid ∧ (list.foldl Scan.advance s).flag = s.flag ∧
      (list.foldl Scan.advance s).ssid = ((list.filterMap ScanLine.essid?).getLast?).getD s.ssid ∧
      (list.foldl Scan.advance s).channel =
        ((list.filterMap ScanLine.channel?).getLast?).getD s.channel := by
  induction list generalizing s with
  | nil => exact ⟨rfl, rfl, rfl, rfl⟩
  | cons line list ih =>
    obtain ⟨hown, hextra, hquiet⟩ := hquiet.cons
    obtain ⟨hbssid, hflag, hssid, hchannel⟩ := ih hquiet (s.advance line)
    rw [foldl_cons, hbssid, hflag, hssid, hchannel]
    cases line with
    | address text => cases hown
    | extra => exact absurd rfl hextra
    | essid text =>
      refine ⟨rfl, rfl, ?_, rfl⟩
      show _ = ((text :: list.filterMap ScanLine.essid?).getLast?).getD s.ssid
      rw [List.getLast?_cons]
      rfl
    | channel text =>
      refine ⟨rfl, rfl, rfl, ?_⟩
      show _ = ((beforeParen text :: list.filterMap ScanLine.channel?).getLast?).getD s.channel
      rw [List.getLast?_cons]
      rfl
    | other => exact ⟨rfl, rfl, rfl, rfl⟩

/-- Every line that prints a cell prints at least one quote. -/
theorem count_extra_le (s : Scan) (list : List ScanLine) :
    list.count .extra ≤ (s.printed list).count 34 := by
  induction list generalizing s with
  | nil => exact Nat.le_refl 0
  | cons line list ih =>
    rw [Scan.printed, count_append, count_cons]
    have hrest := ih (s.advance line)
    have hline : (if (line == ScanLine.extra) = true then 1 else 0) ≤ (s.prints line).count 34 := by
      cases line with
      | extra =>
        have hquotes : (ascii "\x7b\"ssid\":").count 34 = 2 := by decide
        show 1 ≤ s.message.count 34
        rw [Scan.message, count_append, hquotes]
        omega
      | address text | essid text | channel text | other => exact Nat.zero_le _
    omega

end Runs

/-! ### Cells and lines -/

section Cells

variable {s : Scan} {list : List ScanLine} {cell : Cell} {report : Report}

/-- The lines of a scan are those before the first cell and those of the cells. -/
theorem eq_cells (list : List ScanLine) :
    list = list.takeWhile ScanLine.own ++ (cells list).flatMap Cell.all := by
  induction list with
  | nil => rfl
  | cons line list ih =>
    cases line with
    | address text =>
      show _ = [] ++ (Cell.all ⟨text, _⟩ ++ (cells list).flatMap Cell.all)
      rw [nil_append, Cell.all, cons_append, ← ih]
    | essid text | channel text | extra | other =>
      exact congrArg (List.cons _) ih

theorem own_of_mem_cells (hcell : cell ∈ cells list) : ∀ line ∈ cell.lines, line.own = true := by
  induction list with
  | nil => cases hcell
  | cons line list ih =>
    cases line with
    | address text =>
      rcases mem_cons.mp hcell with rfl | hcell
      · exact fun line hline ↦ mem_takeWhile_imp hline
      · exact ih hcell
    | essid text | channel text | extra | other => exact ih hcell

theorem eq_of_unquote {text name : Bytes} (hname : unquote text = some name) :
    text = 34 :: (name ++ [34]) := by
  unfold unquote at hname
  split at hname
  · rename_i hquoted
    obtain ⟨hlength, hfirst, hlast⟩ := hquoted
    obtain rfl := Option.some.inj hname
    obtain ⟨tail, rfl⟩ := List.head?_eq_some_iff.mp hfirst
    have htail : tail ≠ [] := by
      rintro rfl
      exact absurd hlength (by decide)
    rw [List.getLast?_cons_of_ne_nil htail] at hlast
    obtain ⟨front, rfl⟩ := List.getLast?_eq_some_iff.mp hlast
    rw [tail_cons, dropLast_concat]
  · cases hname

/-- What is printed for a report. -/
def Report.text (report : Report) : Bytes :=
  ascii "\x7b\"ssid\":\"" ++ (report.ssid ++ (ascii "\",\"bssid\":\"" ++ (report.bssid ++
    (ascii "\",\"channel\":\"" ++ (report.channel ++ ascii "\"\x7d")))))

/-- The lines of a cell that has what is to be reported. -/
theorem exists_of_report (hreport : cell.report = some report) (hcell : cell.Reported)
    (hown : ∀ line ∈ cell.lines, line.own = true) :
    ∃ before after, cell.lines = before ++ .extra :: after ∧ Quiet before ∧
      (∀ line ∈ after, line.own = true) ∧
      ∀ s : Scan, s.bssid = cell.address →
        (before.foldl Scan.advance s).message = report.text := by
  have hsplit := (takeWhile_append_dropWhile (p := (· != ScanLine.extra)) (l := cell.lines)).symm
  have hbefore : Quiet (cell.lines.takeWhile (· != .extra)) := by
    refine ⟨fun line hline ↦ hown line ((List.takeWhile_prefix _).subset hline), fun hmem ↦ ?_⟩
    exact absurd (mem_takeWhile_imp hmem) (by decide)
  obtain ⟨ssid, hssid, hreport⟩ := Option.bind_eq_some_iff.mp hreport
  obtain ⟨name, hname, hreport⟩ := Option.bind_eq_some_iff.mp hreport
  obtain ⟨channel, hchannel, hreport⟩ := Option.bind_eq_some_iff.mp hreport
  obtain rfl := Option.some.inj hreport
  have hmessage : ∀ s : Scan, s.bssid = cell.address →
      ((cell.lines.takeWhile (· != .extra)).foldl Scan.advance s).message =
        (Report.mk name cell.address channel).text := by
    intro s haddress
    obtain ⟨hbssid, -, hkept, hkept'⟩ := hbefore.foldl s
    rw [Scan.message, hbssid, hkept, hkept', hssid, hchannel, haddress, Option.getD_some,
      Option.getD_some, eq_of_unquote hname, Report.text]
    have hopen : ascii "\x7b\"ssid\":\"" = ascii "\x7b\"ssid\":" ++ [34] := rfl
    have hnext : ascii "\",\"bssid\":\"" = 34 :: ascii ",\"bssid\":\"" := rfl
    rw [hopen, hnext]
    simp
  cases hafter : cell.lines.dropWhile (· != .extra) with
  | nil =>
    rw [hafter, append_nil] at hsplit
    rw [Cell.Reported, hsplit] at hcell
    exact absurd hcell hbefore.silent
  | cons line after =>
    have hline : line = .extra := by
      have hhead := List.head?_dropWhile_not (· != ScanLine.extra) cell.lines
      rw [hafter] at hhead
      simpa using hhead
    rw [hafter, hline] at hsplit
    refine ⟨_, after, hsplit, hbefore, fun next hnext ↦ hown next ?_, hmessage⟩
    rw [hsplit]
    exact mem_append_right _ (mem_cons_of_mem _ hnext)

theorem flag_foldl (hown : ∀ line ∈ list, line.own = true) (hflag : s.flag = true) :
    (list.foldl Scan.advance s).flag = true := by
  induction list generalizing s with
  | nil => exact hflag
  | cons line list ih =>
    rw [forall_mem_cons] at hown
    apply ih hown.2
    cases line with
    | address text => cases hown.1
    | extra => rfl
    | essid text | channel text | other => exact hflag

/-- A comma goes before a cell if one has been printed since the last comma. -/
def comma (flag : Bool) : Bytes := if flag then [44] else []

/-- What a cell prints that is to be reported. -/
theorem printed_reported (hreport : cell.report = some report) (hcell : cell.Reported)
    (hown : ∀ line ∈ cell.lines, line.own = true) (s : Scan) :
    ∃ rest, s.printed cell.all = comma s.flag ++ (report.text ++ rest) ∧
      cell.lines.count .extra ≤ 1 + rest.count 34 ∧
      (cell.lines.count .extra ≤ 1 → rest = []) ∧
      (cell.all.foldl Scan.advance s).flag = true := by
  obtain ⟨before, after, hlines, hbefore, hafter, hmessage⟩ := exists_of_report hreport hcell hown
  have hcount : cell.lines.count .extra = 1 + after.count .extra := by
    rw [hlines, count_append, count_eq_zero.mpr hbefore.silent, count_cons_self]
    omega
  -- The state when the cell is printed.
  generalize hbegin : s.advance (.address cell.address) = begun
  have haddress : begun.bssid = cell.address := by rw [← hbegin]; rfl
  refine ⟨((before.foldl Scan.advance begun).advance .extra).printed after, ?_, ?_, ?_, ?_⟩
  · rw [Cell.all, hlines, Scan.printed, hbegin, printed_append, hbefore.printed, nil_append,
      Scan.printed]
    show comma s.flag ++ ((before.foldl Scan.advance begun).message ++ _) = _
    rw [hmessage begun haddress]
  · rw [hcount]
    exact Nat.add_le_add_left (count_extra_le _ after) 1
  · intro honce
    have hsilent : .extra ∉ after := count_eq_zero.mp (by omega)
    exact Quiet.printed ⟨hafter, hsilent⟩ _
  · rw [Cell.all, hlines, foldl_cons, hbegin, foldl_append, foldl_cons]
    exact flag_foldl hafter rfl

/-- What another cell prints. -/
theorem printed_unreported (hcell : ¬cell.Reported) (hown : ∀ line ∈ cell.lines, line.own = true)
    (s : Scan) :
    s.printed cell.all = comma s.flag ∧ (cell.all.foldl Scan.advance s).flag = false := by
  have hquiet : Quiet cell.lines := ⟨hown, hcell⟩
  rw [Cell.all, Scan.printed, hquiet.printed, append_nil, foldl_cons]
  exact ⟨rfl, (hquiet.foldl _).2.1⟩

end Cells

/-! ### Quotes -/

section Quotes

variable {list : List Cell} {reports : List Report}

theorem quotes_json (report : Report) : quotes report.json = report.text.count 34 := by
  have hjson : quotes report.json = 12 + (report.ssid.count 34 + (report.bssid.count 34 +
      report.channel.count 34)) := by
    simp only [Report.json, quotes, quotesMembers, quotesMember,
      show (ascii "ssid").count 34 = 0 by decide, show (ascii "bssid").count 34 = 0 by decide,
      show (ascii "channel").count 34 = 0 by decide]
    omega
  rw [hjson, Report.text]
  simp only [count_append, show (ascii "\x7b\"ssid\":\"").count 34 = 3 by decide,
    show (ascii "\",\"bssid\":\"").count 34 = 4 by decide,
    show (ascii "\",\"channel\":\"").count 34 = 4 by decide,
    show (ascii "\"\x7d").count 34 = 1 by decide]
  omega

theorem count_comma (flag : Bool) : (comma flag).count 34 = 0 := by
  cases flag <;> rfl

theorem reports_cons {cell : Cell}
    (hreports : ((cell :: list).filter fun cell ↦ cell.Reported).mapM Cell.report = some reports) :
    (cell.Reported ∧ ∃ report more, cell.report = some report ∧ reports = report :: more ∧
        (list.filter fun cell ↦ cell.Reported).mapM Cell.report = some more) ∨
      (¬cell.Reported ∧ (list.filter fun cell ↦ cell.Reported).mapM Cell.report = some reports) := by
  by_cases hcell : cell.Reported
  · rw [filter_cons_of_pos (by simpa using hcell), mapM_cons] at hreports
    obtain ⟨report, hreport, hreports⟩ := Option.bind_eq_some_iff.mp hreports
    obtain ⟨more, hmore, hreports⟩ := Option.bind_eq_some_iff.mp hreports
    exact .inl ⟨hcell, report, more, hreport, (Option.some.inj hreports).symm, hmore⟩
  · rw [filter_cons_of_neg (by simpa using hcell)] at hreports
    exact .inr ⟨hcell, hreports⟩

/-- What the cells print has the quotes of the reports, and more for every line that prints a cell
again. -/
theorem quotes_le_printed (hown : ∀ cell ∈ list, ∀ line ∈ cell.lines, line.own = true)
    (hreports : (list.filter fun cell ↦ cell.Reported).mapM Cell.report = some reports) (s : Scan) :
    quotesElements (reports.map Report.json) +
        total (fun cell : Cell ↦ cell.lines.count .extra - 1) list ≤
      (s.printed (list.flatMap Cell.all)).count 34 := by
  induction list generalizing reports s with
  | nil =>
    obtain rfl := Option.some.inj hreports
    exact Nat.zero_le _
  | cons cell list ih =>
    rw [forall_mem_cons] at hown
    rw [flatMap_cons, printed_append, count_append]
    show _ + (cell.lines.count .extra - 1 + total _ list) ≤ _
    rcases reports_cons hreports with ⟨hcell, report, more, hreport, rfl, hmore⟩ | ⟨hcell, hmore⟩
    · obtain ⟨rest, hprinted, hcount, -⟩ := printed_reported hreport hcell hown.1 s
      have hlist := ih hown.2 hmore (cell.all.foldl Scan.advance s)
      rw [hprinted, count_append, count_append, count_comma, ← quotes_json, map_cons,
        quotesElements]
      omega
    · have hlist := ih hown.2 hmore (cell.all.foldl Scan.advance s)
      have hnone : cell.lines.count .extra = 0 := count_eq_zero.mpr hcell
      omega

theorem le_total {α : Type} {weight : α → ℕ} {a : α} {list : List α} (ha : a ∈ list) :
    weight a ≤ total weight list := by
  induction list with
  | nil => cases ha
  | cons b list ih =>
    show _ ≤ weight b + total weight list
    rcases mem_cons.mp ha with rfl | ha
    · exact Nat.le_add_right _ _
    · exact Nat.le_add_left_of_le (ih ha)

end Quotes

/-! ### What is read from the cells -/

variable {tail rest : Bytes}

section Slots

variable {list : List Cell} {slots : List (Option Report)} {reports : List Report}

/-- What is printed for the cells, where only some are reported. -/
def joined (flag : Bool) : List (Option Report) → Bytes
  | [] => []
  | none :: rest => comma flag ++ joined false rest
  | some report :: rest => comma flag ++ (report.text ++ joined true rest)

def Cell.slot (cell : Cell) : Option Report := if cell.Reported then cell.report else none

theorem reduceOption_slots
    (hreports : (list.filter fun cell ↦ cell.Reported).mapM Cell.report = some reports) :
    (list.map Cell.slot).reduceOption = reports := by
  induction list generalizing reports with
  | nil => exact Option.some.inj hreports
  | cons cell list ih =>
    rcases reports_cons hreports with ⟨hcell, report, more, hreport, rfl, hmore⟩ | ⟨hcell, hmore⟩
    · rw [map_cons, Cell.slot, if_pos hcell, hreport, reduceOption_cons_of_some, ih hmore]
    · rw [map_cons, Cell.slot, if_neg hcell, reduceOption_cons_of_none, ih hmore]

/-- What cells print that are printed at most once. -/
theorem printed_cells (hown : ∀ cell ∈ list, ∀ line ∈ cell.lines, line.own = true)
    (hreports : (list.filter fun cell ↦ cell.Reported).mapM Cell.report = some reports)
    (honce : ∀ cell ∈ list, cell.lines.count .extra ≤ 1) (s : Scan) :
    s.printed (list.flatMap Cell.all) = joined s.flag (list.map Cell.slot) := by
  induction list generalizing reports s with
  | nil => rfl
  | cons cell list ih =>
    rw [forall_mem_cons] at hown honce
    rw [flatMap_cons, printed_append, map_cons, Cell.slot]
    rcases reports_cons hreports with ⟨hcell, report, more, hreport, rfl, hmore⟩ | ⟨hcell, hmore⟩
    · obtain ⟨rest, hprinted, -, hrest, hflag⟩ := printed_reported hreport hcell hown.1 s
      rw [ih hown.2 hmore honce.2, hprinted, hrest honce.1, hflag, if_pos hcell, hreport, joined]
      simp
    · obtain ⟨hprinted, hflag⟩ := printed_unreported hcell hown.1 s
      rw [ih hown.2 hmore honce.2, hprinted, hflag, if_neg hcell, joined]

/-- A report is printed as the members of an object. -/
theorem text_append (report : Report) (tail : Bytes) :
    report.text ++ tail = 123 :: stringMember (ascii "ssid") [] (report.ssid ++ 34 :: 44 ::
      stringMember (ascii "bssid") [] (report.bssid ++ 34 :: 44 ::
        stringMember (ascii "channel") [] (report.channel ++ 34 :: 125 :: tail))) := by
  have hssid : ascii "\x7b\"ssid\":\"" = 123 :: 34 :: (ascii "ssid" ++ [34, 58, 34]) := rfl
  have hbssid : ascii "\",\"bssid\":\"" = 34 :: 44 :: 34 :: (ascii "bssid" ++ [34, 58, 34]) := rfl
  have hchannel : ascii "\",\"channel\":\"" =
    34 :: 44 :: 34 :: (ascii "channel" ++ [34, 58, 34]) := rfl
  have hclose : ascii "\"\x7d" = [34, 125] := rfl
  rw [Report.text, hssid, hbssid, hchannel, hclose]
  simp [stringMember]

/-- The texts of a report are read as themselves. -/
def Report.IsPlain (report : Report) : Prop :=
  Json.IsPlain report.ssid ∧ Json.IsPlain report.bssid ∧ Json.IsPlain report.channel

theorem value_report_iff {report : Report} {depth : ℕ} :
    value (depth + 2) (report.text ++ tail) = some (report.json, rest) ↔
      report.IsPlain ∧ rest = tail := by
  have hname : Json.IsPlain (ascii "ssid") ∧ Json.IsPlain (ascii "bssid") ∧
      Json.IsPlain (ascii "channel") := by decide
  have hgap : ∀ b ∈ ([] : Bytes), isBlank b = true := fun _ hb ↦ absurd hb not_mem_nil
  obtain ⟨fuel, hfuel⟩ : ∃ fuel, (report.text ++ tail).length = fuel + 4 := by
    refine ⟨(report.text ++ tail).length - 4, ?_⟩
    rw [text_append]
    simp only [length_cons, stringMember, length_append]
    omega
  rw [text_append, length_cons, Nat.add_right_cancel_iff] at hfuel
  rw [text_append, value_brace, stringMember, items_eq_sequence (by decide) (by decide),
    ← stringMember, hfuel, Option.map_eq_some_iff]
  constructor
  · rintro ⟨⟨members, after⟩, hmembers, hjson⟩
    obtain ⟨hobject, rfl⟩ := Prod.mk.inj hjson
    obtain rfl := Json.object.inj hobject
    obtain ⟨hssid, hmembers⟩ := (sequence_stringMember_comma hname.1 hgap).mp hmembers
    obtain ⟨hbssid, hmembers⟩ := (sequence_stringMember_comma hname.2.1 hgap).mp hmembers
    obtain ⟨hchannel, rfl⟩ := (sequence_stringMember_close hname.2.2 hgap).mp hmembers
    exact ⟨⟨hssid, hbssid, hchannel⟩, rfl⟩
  · rintro ⟨⟨hssid, hbssid, hchannel⟩, rfl⟩
    refine ⟨(_, rest), ?_, rfl⟩
    apply (sequence_stringMember_comma hname.1 hgap).mpr
    refine ⟨hssid, (sequence_stringMember_comma hname.2.1 hgap).mpr ⟨hbssid, ?_⟩⟩
    exact (sequence_stringMember_close hname.2.2 hgap).mpr ⟨hchannel, rfl⟩

/-- No value begins with a closing bracket. -/
theorem value_closed (depth : ℕ) (tail : Bytes) : value depth (93 :: tail) = none := by
  cases depth with
  | zero => rfl
  | succ depth =>
    rw [value, skip_cons (by decide)]
    rfl

theorem joined_true {slot : Option Report} (rest : List (Option Report)) :
    joined true (slot :: rest) = 44 :: joined false (slot :: rest) := by
  cases slot <;> rfl

/-- The reports are read from what is printed exactly if they are plain and the last cell is
reported. -/
theorem sequence_joined_iff {fuel depth : ℕ} (hfuel : slots.reduceOption.length ≤ fuel) :
    sequence (value (depth + 2)) 93 fuel (joined false slots ++ 93 :: tail) =
        some (slots.reduceOption.map Report.json, rest) ↔
      (∀ report ∈ slots.reduceOption, report.IsPlain) ∧
        (∃ report, slots.getLast? = some (some report)) ∧ rest = tail := by
  induction slots generalizing fuel with
  | nil =>
    constructor
    · intro hlist
      obtain ⟨first, after, more, hfirst, -⟩ := exists_of_sequence hlist
      rw [joined, nil_append, value_closed] at hfirst
      cases hfirst
    · rintro ⟨-, ⟨report, hlast⟩, -⟩
      cases hlast
  | cons slot slots ih =>
    cases slot with
    | none =>
      rw [reduceOption_cons_of_none] at hfuel ⊢
      rw [joined, comma, if_neg Bool.false_ne_true, nil_append, ih hfuel]
      cases slots with
      | nil => simp
      | cons slot slots => rw [List.getLast?_cons_cons]
    | some report =>
      rw [reduceOption_cons_of_some, length_cons] at hfuel
      obtain ⟨fuel, rfl⟩ := Nat.exists_eq_add_of_lt (Nat.lt_of_lt_of_le (Nat.succ_pos _) hfuel)
      rw [Nat.zero_add] at hfuel ⊢
      rw [reduceOption_cons_of_some, map_cons, joined, comma, if_neg Bool.false_ne_true,
        nil_append, append_assoc, forall_mem_cons]
      by_cases hplain : report.IsPlain
      · have hfirst (after : Bytes) : value (depth + 2) (report.text ++ after) =
            some (report.json, after) := value_report_iff.mpr ⟨hplain, rfl⟩
        cases slots with
        | nil =>
          rw [joined, nil_append, sequence_close fuel (hfirst _) (by decide) (by decide)]
          simp [hplain, eq_comm]
        | cons slot slots =>
          rw [joined_true, cons_append, sequence_comma fuel (hfirst _), Option.map_eq_some_iff,
            List.getLast?_cons_cons, and_iff_right hplain, ← ih (Nat.le_of_succ_le_succ hfuel)]
          constructor
          · rintro ⟨⟨more, after⟩, hmore, hlist⟩
            obtain ⟨hcons, rfl⟩ := Prod.mk.inj hlist
            rw [hmore, (List.cons.inj hcons).2]
          · intro hmore
            exact ⟨_, hmore, rfl⟩
      · constructor
        · intro hlist
          obtain ⟨first, after, more, hfirst, hmore⟩ := exists_of_sequence hlist
          rw [← (List.cons.inj hmore).1] at hfirst
          exact absurd (value_report_iff.mp hfirst).1 hplain
        · exact fun hall ↦ absurd hall.1.1 hplain

/-- The texts of a report are UTF-8. -/
def Report.isUtf8 (report : Report) : Bool :=
  Json.isUtf8 report.ssid && (Json.isUtf8 report.bssid && Json.isUtf8 report.channel)

theorem isUtf8_text (report : Report) (tail : Bytes) :
    Json.isUtf8 (report.text ++ tail) = (report.isUtf8 && Json.isUtf8 tail) := by
  have hascii : ∀ text ∈ ["\x7b\"ssid\":\"", "\",\"bssid\":\"", "\",\"channel\":\"", "\"\x7d"],
      ascii text ≠ [] ∧ ∀ b ∈ ascii text, b < 0x80 := by decide
  simp only [forall_mem_cons] at hascii
  obtain ⟨hssid, hbssid, hchannel, hclose, -⟩ := hascii
  rw [Report.text, append_assoc, isUtf8_ascii_append hssid.2, append_assoc,
    append_assoc, isUtf8_between hbssid.1 hbssid.2, append_assoc, append_assoc,
    isUtf8_between hchannel.1 hchannel.2, append_assoc, isUtf8_between hclose.1 hclose.2,
    Report.isUtf8, Bool.and_assoc, Bool.and_assoc]

theorem isUtf8_joined (flag : Bool) (slots : List (Option Report)) (tail : Bytes) :
    Json.isUtf8 (joined flag slots ++ tail) =
      (slots.reduceOption.all Report.isUtf8 && Json.isUtf8 tail) := by
  have hcomma (flag : Bool) : ∀ b ∈ comma flag, b < 0x80 := by
    cases flag <;> decide
  induction slots generalizing flag with
  | nil => rfl
  | cons slot slots ih =>
    cases slot with
    | none =>
      rw [joined, append_assoc, isUtf8_ascii_append (hcomma flag), ih, reduceOption_cons_of_none]
    | some report =>
      rw [joined, append_assoc, isUtf8_ascii_append (hcomma flag), append_assoc,
        isUtf8_text, ih, reduceOption_cons_of_some, all_cons, Bool.and_assoc]

end Slots

/-! ### The body -/

section Body

variable {out : Bytes} {elements : List Json}

theorem scanBody_eq (out : Bytes) :
    scanBody out = 123 :: 34 :: (ascii "wifimessage" ++ 34 :: 58 :: ([32] ++ 91 ::
      (out ++ 93 :: [125]))) := by
  have hopen : ascii "\x7b\"wifimessage\": [" =
    123 :: 34 :: (ascii "wifimessage" ++ [34, 58, 32, 91]) := rfl
  have hclose : ascii "]\x7d" = [93, 125] := rfl
  rw [scanBody, hopen, hclose]
  simp

/-- How a body is read. -/
theorem member_scanBody (depth : ℕ) (out : Bytes) :
    member (value (depth + 1))
        (34 :: (ascii "wifimessage" ++ 34 :: 58 :: ([32] ++ 91 :: (out ++ 93 :: [125])))) =
      (items (value depth) 93 (out ++ 93 :: [125])).map fun (list, rest) ↦
        ((ascii "wifimessage", .array list), rest) := by
  rw [member_quote (by decide), value_gap (by decide), value_bracket, Option.map_map]
  rfl

theorem value_scanBody (depth : ℕ) (out : Bytes) :
    ∃ fuel, value (depth + 2) (scanBody out) =
      (sequence (member (value (depth + 1))) 125 (fuel + 1)
        (34 :: (ascii "wifimessage" ++ 34 :: 58 :: ([32] ++ 91 :: (out ++ 93 :: [125]))))).map
          fun (list, rest) ↦ (.object list, rest) := by
  rw [scanBody_eq, value_brace, items_eq_sequence (by decide) (by decide)]
  exact ⟨_, rfl⟩

/-- The elements of a body that is read as a list of them. -/
theorem elements_of_decode
    (hdecode : decode (scanBody out) = some (.object [(ascii "wifimessage", .array elements)])) :
    isUtf8 (scanBody out) = true ∧
      ∃ depth rest, items (value (depth + 2)) 93 (out ++ 93 :: [125]) = some (elements, rest) := by
  unfold decode at hdecode
  split at hdecode
  · rename_i hutf8
    refine ⟨hutf8, ?_⟩
    obtain ⟨⟨json, after⟩, hvalue, hend⟩ := Option.bind_eq_some_iff.mp hdecode
    obtain ⟨depth, hdepth⟩ : ∃ depth, (scanBody out).length = depth + 2 + 2 := by
      rw [scanBody_eq]
      exact ⟨_, rfl⟩
    obtain ⟨fuel, hbody⟩ := value_scanBody (depth + 2) out
    rw [hdepth, hbody] at hvalue
    obtain ⟨⟨members, after'⟩, hmembers, hjson⟩ := Option.map_eq_some_iff.mp hvalue
    have hobject : json = .object [(ascii "wifimessage", .array elements)] := by
      dsimp only at hend
      split at hend
      · exact Option.some.inj hend
      · cases hend
    obtain rfl := Json.object.inj ((Prod.mk.inj hjson).1.trans hobject)
    obtain ⟨first, after'', more, hfirst, hmore⟩ := exists_of_sequence hmembers
    rw [member_scanBody, ← (List.cons.inj hmore).1] at hfirst
    obtain ⟨⟨list, rest⟩, hitems, hpair⟩ := Option.map_eq_some_iff.mp hfirst
    obtain rfl := Json.array.inj (Prod.mk.inj (Prod.mk.inj hpair).1).2
    exact ⟨depth, rest, hitems⟩
  · cases hdecode

/-- A body is read as a list if what is printed is read as its elements. -/
theorem decode_of_elements (hutf8 : isUtf8 (scanBody out) = true)
    (hitems : ∀ depth, items (value (depth + 2)) 93 (out ++ 93 :: [125]) = some (elements, [125])) :
    decode (scanBody out) = some (.object [(ascii "wifimessage", .array elements)]) := by
  obtain ⟨depth, hdepth⟩ : ∃ depth, (scanBody out).length = depth + 2 + 2 := by
    rw [scanBody_eq]
    exact ⟨_, rfl⟩
  obtain ⟨fuel, hbody⟩ := value_scanBody (depth + 2) out
  have hmember := member_scanBody (depth + 2) out
  rw [hitems depth, Option.map_some] at hmember
  rw [decode, if_pos hutf8, hdepth, hbody, sequence_close fuel hmember (by decide) (by decide)]
  rfl

theorem isUtf8_scanBody (slots : List (Option Report)) :
    isUtf8 (scanBody (joined false slots)) = slots.reduceOption.all Report.isUtf8 := by
  have hopen : ∀ b ∈ ascii "\x7b\"wifimessage\": [", b < 0x80 := by decide
  have hclose : isUtf8 (ascii "]\x7d") = true := by decide
  rw [scanBody, isUtf8_ascii_append hopen, isUtf8_joined, hclose, Bool.and_true]

end Body

/-! ### Regular scans -/

section Main

variable {list : List Cell} {slots : List (Option Report)} {reports : List Report}

theorem joined_eq_nil (hslots : slots.reduceOption = []) : joined false slots = [] := by
  induction slots with
  | nil => rfl
  | cons slot slots ih =>
    cases slot with
    | none => exact ih hslots
    | some report => cases hslots

theorem exists_joined_eq (hslots : slots.reduceOption ≠ []) :
    ∃ rest, joined false slots = 123 :: rest := by
  induction slots with
  | nil => exact absurd rfl hslots
  | cons slot slots ih =>
    cases slot with
    | none => exact ih hslots
    | some report => exact ⟨_, rfl⟩

theorem length_reduceOption_le (flag : Bool) (slots : List (Option Report)) :
    slots.reduceOption.length ≤ (joined flag slots).length := by
  induction slots generalizing flag with
  | nil => exact Nat.le_refl 0
  | cons slot slots ih =>
    cases slot with
    | none =>
      rw [reduceOption_cons_of_none, joined, length_append]
      exact Nat.le_add_left_of_le (ih false)
    | some report =>
      have hlist := ih true
      have htext : 0 < report.text.length := Nat.succ_pos _
      rw [reduceOption_cons_of_some, joined, length_cons, length_append, length_append]
      omega

/-- The elements are read from what is printed exactly if the reports are plain and the last cell is
reported, if any is. -/
theorem items_joined_iff {depth : ℕ} (hslots : slots.reduceOption ≠ []) :
    items (value (depth + 2)) 93 (joined false slots ++ 93 :: tail) =
        some (slots.reduceOption.map Report.json, rest) ↔
      (∀ report ∈ slots.reduceOption, report.IsPlain) ∧
        (∃ report, slots.getLast? = some (some report)) ∧ rest = tail := by
  obtain ⟨more, hmore⟩ := exists_joined_eq hslots
  have hfuel : slots.reduceOption.length ≤ (joined false slots ++ 93 :: tail).length := by
    rw [length_append]
    exact Nat.le_add_right_of_le (length_reduceOption_le false slots)
  rw [← sequence_joined_iff hfuel, hmore, cons_append, items_eq_sequence (by decide) (by decide)]

theorem Report.isClean_iff {report : Report} :
    report.IsClean ↔ report.IsPlain ∧ report.isUtf8 = true := by
  simp only [Report.IsClean, Report.IsPlain, Report.isUtf8, forall_mem_cons, Bool.and_eq_true]
  constructor
  · rintro ⟨hssid, hbssid, hchannel, -⟩
    exact ⟨⟨hssid.1, hbssid.1, hchannel.1⟩, hssid.2, hbssid.2, hchannel.2⟩
  · rintro ⟨⟨hssid, hbssid, hchannel⟩, hssid', hbssid', hchannel'⟩
    exact ⟨⟨hssid, hssid'⟩, ⟨hbssid, hbssid'⟩, ⟨hchannel, hchannel'⟩,
      fun _ hmem ↦ absurd hmem not_mem_nil⟩

theorem exists_report_of_mem {cell : Cell}
    (hreports : (list.filter fun cell ↦ cell.Reported).mapM Cell.report = some reports)
    (hcell : cell ∈ list) (hreported : cell.Reported) :
    ∃ report ∈ reports, cell.report = some report := by
  induction list generalizing reports with
  | nil => cases hcell
  | cons first list ih =>
    rcases reports_cons hreports with ⟨hfirst, report, more, hreport, rfl, hmore⟩ | ⟨hfirst, hmore⟩
    · rcases mem_cons.mp hcell with rfl | hcell
      · exact ⟨report, mem_cons_self, hreport⟩
      · obtain ⟨report', hmem, hreport'⟩ := ih hmore hcell
        exact ⟨report', mem_cons_of_mem _ hmem, hreport'⟩
    · rcases mem_cons.mp hcell with rfl | hcell
      · exact absurd hreported hfirst
      · exact ih hmore hcell

/-- All reports, if every cell that is to be reported has one. -/
theorem exists_reports {p : Report → Prop}
    (hcomplete : ∀ cell ∈ list, cell.Reported → ∃ report ∈ cell.report, p report) :
    ∃ reports, (list.filter fun cell ↦ cell.Reported).mapM Cell.report = some reports ∧
      (∀ report ∈ reports, p report) ∧
      (reports ≠ [] → ∃ cell ∈ list, cell.Reported) := by
  induction list with
  | nil => exact ⟨[], rfl, fun _ hmem ↦ absurd hmem not_mem_nil, fun hne ↦ absurd rfl hne⟩
  | cons cell list ih =>
    rw [forall_mem_cons] at hcomplete
    obtain ⟨more, hmore, hall, hexists⟩ := ih hcomplete.2
    by_cases hcell : cell.Reported
    · obtain ⟨report, hreport, hp⟩ := hcomplete.1 hcell
      refine ⟨report :: more, ?_, forall_mem_cons.mpr ⟨hp, hall⟩,
        fun _ ↦ ⟨cell, mem_cons_self, hcell⟩⟩
      rw [filter_cons_of_pos (by simpa using hcell), mapM_cons, hreport, hmore]
      rfl
    · refine ⟨more, ?_, hall, fun hne ↦ ?_⟩
      · rw [filter_cons_of_neg (by simpa using hcell), hmore]
      · obtain ⟨cell', hcell', hreported⟩ := hexists hne
        exact ⟨cell', mem_cons_of_mem _ hcell', hreported⟩

/-- What the lines of a scan print, by its cells. -/
theorem printed_eq (lines : List ScanLine) :
    Scan.start.printed lines = Scan.start.printed (lines.takeWhile ScanLine.own) ++
      ((lines.takeWhile ScanLine.own).foldl Scan.advance Scan.start).printed
        ((cells lines).flatMap Cell.all) := by
  conv_lhs => rw [eq_cells lines]
  exact printed_append _ _ _

theorem quiet_preamble {lines : List ScanLine} (hpreamble : .extra ∉ lines.takeWhile ScanLine.own) :
    Quiet (lines.takeWhile ScanLine.own) :=
  ⟨fun _ hline ↦ mem_takeWhile_imp hline, hpreamble⟩

/-- What is printed if nothing is printed before the first cell and no cell is printed twice. -/
theorem printed_lines {lines : List ScanLine} (hpreamble : .extra ∉ lines.takeWhile ScanLine.own)
    (honce : ∀ cell ∈ cells lines, cell.lines.count .extra ≤ 1)
    (hreports : ((cells lines).filter fun cell ↦ cell.Reported).mapM Cell.report = some reports) :
    Scan.start.printed lines = joined false ((cells lines).map Cell.slot) := by
  have hquiet := quiet_preamble hpreamble
  rw [printed_eq, hquiet.printed, nil_append,
    printed_cells (fun cell hcell ↦ own_of_mem_cells hcell) hreports honce, (hquiet.foldl _).2.1]
  rfl

/-- The quotes in a body that describes the cells leave no room for anything else. -/
theorem printed_once {lines : List ScanLine}
    (hreports : ((cells lines).filter fun cell ↦ cell.Reported).mapM Cell.report = some reports)
    (hdecode : decode (scanBody (Scan.start.printed lines)) =
      some (.object [(ascii "wifimessage", .array (reports.map Report.json))])) :
    .extra ∉ lines.takeWhile ScanLine.own ∧
      ∀ cell ∈ cells lines, cell.lines.count .extra ≤ 1 := by
  have hquotes := count_le_quotes hdecode
  have hbody : (scanBody (Scan.start.printed lines)).count 34 =
      2 + (Scan.start.printed lines).count 34 := by
    rw [scanBody, count_append, count_append,
      show (ascii "\x7b\"wifimessage\": [").count 34 = 2 by decide,
      show (ascii "]\x7d").count 34 = 0 by decide]
    rfl
  have hobject : quotes (.object [(ascii "wifimessage", .array (reports.map Report.json))]) =
      2 + quotesElements (reports.map Report.json) := by
    simp only [quotes, quotesMembers, quotesMember,
      show (ascii "wifimessage").count 34 = 0 by decide]
    omega
  rw [hbody, hobject, printed_eq, count_append] at hquotes
  have hpreamble := count_extra_le Scan.start (lines.takeWhile ScanLine.own)
  have hcells := quotes_le_printed (fun cell hcell ↦ own_of_mem_cells hcell) hreports
    ((lines.takeWhile ScanLine.own).foldl Scan.advance Scan.start)
  constructor
  · exact count_eq_zero.mp (by omega)
  · intro cell hcell
    have hle := @le_total Cell (fun cell ↦ cell.lines.count .extra - 1) cell (cells lines) hcell
    omega

/-- The body describes the cells exactly if the scan is regular. -/
theorem describesCells_iff (lines : List ScanLine) :
    DescribesCells (scanBody (Scan.start.printed lines)) lines ↔ Regular lines := by
  constructor
  · rintro ⟨reports, hreports, hdecode⟩
    obtain ⟨hpreamble, honce⟩ := printed_once hreports hdecode
    have hslots := reduceOption_slots hreports
    rw [printed_lines hpreamble honce hreports] at hdecode
    obtain ⟨hutf8, depth, rest, hitems⟩ := elements_of_decode hdecode
    rw [isUtf8_scanBody, hslots, all_eq_true] at hutf8
    have hread : ∀ cell ∈ cells lines, cell.Reported →
        (∀ report ∈ reports, report.IsPlain) ∧
          ∃ report, ((cells lines).map Cell.slot).getLast? = some (some report) := by
      intro cell hcell hreported
      obtain ⟨report, hmem, -⟩ := exists_report_of_mem hreports hcell hreported
      have hne : ((cells lines).map Cell.slot).reduceOption ≠ [] := by
        rw [hslots]
        exact ne_nil_of_mem hmem
      rw [← hslots] at hitems ⊢
      obtain ⟨hplain, hlast, -⟩ := (items_joined_iff hne).mp hitems
      exact ⟨hplain, hlast⟩
    refine ⟨hpreamble, honce, ?_, ?_⟩
    · intro cell hcell hreported
      obtain ⟨report, hmem, hreport⟩ := exists_report_of_mem hreports hcell hreported
      refine ⟨report, hreport, Report.isClean_iff.mpr ⟨?_, hutf8 report hmem⟩⟩
      exact (hread cell hcell hreported).1 report hmem
    · rintro ⟨cell, hcell, hreported⟩ last hlast
      obtain ⟨-, report, hslot⟩ := hread cell hcell hreported
      rw [List.getLast?_map, hlast, Option.map_some, Option.some.injEq, Cell.slot] at hslot
      by_contra hnot
      rw [if_neg hnot] at hslot
      cases hslot
  · rintro ⟨hpreamble, honce, hcomplete, hlast⟩
    obtain ⟨reports, hreports, hclean, hexists⟩ := exists_reports hcomplete
    have hslots := reduceOption_slots hreports
    refine ⟨reports, hreports, ?_⟩
    rw [printed_lines hpreamble honce hreports]
    apply decode_of_elements
    · rw [isUtf8_scanBody, hslots, all_eq_true]
      exact fun report hmem ↦ (Report.isClean_iff.mp (hclean report hmem)).2
    · intro depth
      by_cases hne : reports = []
      · rw [hne] at hslots ⊢
        rw [joined_eq_nil hslots]
        rfl
      · rw [← hslots] at hne ⊢
        refine (items_joined_iff hne).mpr ⟨fun report hmem ↦ ?_, ?_, rfl⟩
        · rw [hslots] at hmem
          exact (Report.isClean_iff.mp (hclean report hmem)).1
        · rw [hslots] at hne
          obtain ⟨cell, hcell, -⟩ := hexists hne
          have hgetLast := List.getLast?_eq_some_getLast (ne_nil_of_mem hcell)
          have hreported := hlast (hexists hne) _ hgetLast
          obtain ⟨report, hreport, -⟩ := hcomplete _ (mem_of_getLast? hgetLast) hreported
          refine ⟨report, ?_⟩
          rw [List.getLast?_map, hgetLast, Option.map_some, Cell.slot, if_pos hreported, hreport]

end Main

/-- For a scan whose lines fit into the line buffer, a body is sent that lists the reported cells
with what their own lines say, exactly if no line is empty for the string functions, what is copied
from the lines fits, and the scan is regular. -/
theorem scan_describes_iff {text : Bytes}
    (hshort : ∀ line ∈ lines scanBufSize text, line.length ≠ scanBufSize) :
    (∃ body, wifiScanning true (some text) = .ok (some body) ∧
        DescribesCells body (scanLines text)) ↔
      (∀ line ∈ lines scanBufSize text, cstr line ≠ [] ∧
        (scanLine (cstr line).dropLast).copied.length < strTypeSize) ∧
      Regular (scanLines text) := by
  rw [← describesCells_iff]
  have hrun {s : Scan} := @foldlM_scanStep_iff Scan.start (lines scanBufSize text) s
  have hout : ((scanLines text).foldl Scan.advance Scan.start).out =
      Scan.start.printed (scanLines text) := by
    rw [out_foldl]
    rfl
  constructor
  · rintro ⟨body, hbody, hdescribes⟩
    obtain ⟨s, hfold, hsent⟩ := bind_eq_ok_iff.mp hbody
    obtain ⟨hlines, rfl⟩ := hrun.mp hfold
    obtain rfl := Option.some.inj (Except.ok.inj hsent)
    refine ⟨fun line hline ↦ (hlines line hline).2, ?_⟩
    rw [← hout]
    exact hdescribes
  · rintro ⟨hlines, hdescribes⟩
    refine ⟨scanBody (Scan.start.printed (scanLines text)), ?_, hdescribes⟩
    have hfold := hrun.mpr ⟨fun line hline ↦ ⟨hshort line hline, hlines line hline⟩, rfl⟩
    rw [wifiScanning, hfold, ok_bind, ← hout]
    rfl

/-- A scan that finds one network. -/
def oneCell : Bytes :=
  ascii " - Address: 00:0A\n    ESSID:\"home\"\n (Channel 1)\n    Extra:fm=0003\n"

/-- A scan that finds another network, whose name is not shown. -/
def hiddenCell : Bytes :=
  oneCell ++ ascii " - Address: 00:0B\n (Channel 6)\n    Extra:fm=0003\n"

/-- A scan that finds two networks. -/
def twoCells : Bytes :=
  oneCell ++ ascii " - Address: 00:0B\n    ESSID:\"guest\"\n (Channel 6)\n    Extra:fm=0003\n"

theorem scan_describes_twoCells :
    ∃ body, wifiScanning true (some twoCells) = .ok (some body) ∧
      DescribesCells body (scanLines twoCells) :=
  (scan_describes_iff (by decide +kernel)).mpr ⟨by decide +kernel, by decide +kernel⟩

/-- What is sent for it. -/
def hiddenBody : Bytes :=
  ascii "\x7b\"wifimessage\": [" ++
    (ascii "\x7b\"ssid\":\"home\",\"bssid\":\"00:0A\",\"channel\":\"1\"\x7d," ++
      ascii "\x7b\"ssid\":\"home\",\"bssid\":\"00:0B\",\"channel\":\"6\"\x7d]\x7d")

/-- The name of the first network is sent for the second one. -/
theorem name_of_other_cell :
    wifiScanning true (some hiddenCell) = .ok (some hiddenBody) ∧
      (cells (scanLines hiddenCell)).map Cell.report =
        [some ⟨ascii "home", ascii "00:0A", ascii "1"⟩, none] ∧
      ¬DescribesCells hiddenBody (scanLines hiddenCell) := by
  refine ⟨by decide +kernel, by decide +kernel, ?_⟩
  rintro ⟨reports, hreports, -⟩
  have hnone : ((cells (scanLines hiddenCell)).filter fun cell ↦ cell.Reported).mapM Cell.report =
      none := by decide +kernel
  rw [hnone] at hreports
  cases hreports

end WisCam.Rest
