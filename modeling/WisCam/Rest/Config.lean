import WisCam.Foundations.Lines
import WisCam.Foundations.Scan

/-!
# The configuration files of the REST server

Each group of parameters has a file with one parameter a line: its name, blanks, and its value, in
double quotes for the network names. `ReadParamStr` takes the value from the first line that begins
with the name, `WriteParamStr` replaces every line that begins with it and copies the others.

Files are byte strings that `ReadLine` cuts into lines. An array that would be written past its end
is a fault: the line buffer when a line fills it, and the array for the value when the scanned text
does not fit.

`read_after_write_iff` says when a value that was written is read back. It is lost where the file
has no line for the parameter, since `WriteParamStr` adds none, and where the scan format cannot
read what was printed: a blank ends a plain value, and a quote or a line break ends a network name.
-/

set_option autoImplicit false

namespace WisCam.Rest

open Foundations List

/-- What the code would do wrong: write past the end of an array or before its start (in the line
buffer of `WriteParamStr` or elsewhere), read memory that holds no text, use a null pointer, or give
a literal to `free`. -/
inductive Fault
  | line
  | overflow
  | stray
  | null
  | badFree
deriving DecidableEq, Repr

/-! ### Groups and their parameters -/

/-- `E_CONFIG_GROUP`. -/
inductive Group
  | wifi
  | stream
  | nabto
  | apmsg
  | stamsg
  | apstamsg
  | version
deriving DecidableEq, Repr

/-- `g_astrParamGroup`. -/
def Group.params : Group → List Bytes
  | .wifi =>
    ["BOOTPROTO", "IPADDR", "GATEWAY", "SSID", "AUTH_MODE", "ENCRYPT_TYPE", "AUTH_KEY",
      "WPS_TRIG_KEY", "AP_IPADDR", "AP_SSID", "AP_AUTH_MODE", "AP_ENCRYPT_TYPE", "AP_AUTH_KEY",
      "AP_CHANNEL"].map ascii
  | .stream => ["VINWIDTH", "VINHEIGHT", "JPEGENCWIDTH", "JPEGENCHEIGHT", "BITRATE"].map ascii
  | .nabto => ["nabto_id", "nabto_key", "nabto_uuid"].map ascii
  | .apmsg => ["ap_ssid", "ap_key", "ap_bssid", "ap_ipaddr", "ap_channel", "ap_gateway"].map ascii
  | .stamsg => ["sta_ssid", "sta_key", "sta_bssid", "sta_ipaddr", "sta_gateway"].map ascii
  | .apstamsg =>
    ["ap_ssid", "ap_key", "ap_bssid", "ap_ipaddr", "ap_channel", "ap_gateway", "sta_ssid", "sta_key",
      "sta_bssid", "sta_ipaddr", "sta_gateway"].map ascii
  | .version => ["version"].map ascii

/-- What is checked of every name in the tables: it is not empty, is short, and has no byte that
could end a line or a value. -/
def IsParam (name : Bytes) : Prop :=
  name ≠ [] ∧ name.length ≤ 15 ∧ ∀ b ∈ name, isSpace b = false ∧ b ≠ 34 ∧ b ≠ 0

instance (name : Bytes) : Decidable (IsParam name) :=
  inferInstanceAs (Decidable (_ ∧ _ ∧ _))

theorem isParam_of_mem {group : Group} {name : Bytes} (hname : name ∈ group.params) :
    IsParam name := by
  have hall : ∀ name ∈ group.params, IsParam name := by
    cases group <;> decide
  exact hall name hname

/-! ### Reading -/

/-- The size of `pReadBuf` in `ReadParamStr` and `WriteParamStr`. -/
def readBufSize : ℕ := 256

/-- The size of the arrays that `ReadParamStr` is given for the value. -/
def paramValueSize : ℕ := 128

/-- Network names are written in quotes. -/
def isSsid (name : Bytes) : Bool := (strstr (ascii "SSID") name).isSome

/-- `sscanf(text, " \"%[^\"]s", value)` into an empty `value`. -/
def scanQuoted (text : Bytes) : Bytes :=
  let rest := text.dropWhile isSpace
  if rest.head? = some 34 then rest.tail.takeWhile (· != 34) else []

/-- `sscanf(text, " %s", value)` into an empty `value`. -/
def scanWord (text : Bytes) : Bytes := (text.dropWhile isSpace).takeWhile (!isSpace ·)

/-- What is scanned after the name of a parameter. -/
def scanValue (name text : Bytes) : Bytes :=
  if isSsid name then scanQuoted text else scanWord text

/-- The scanned text in the array for the value. -/
def storeValue (value : Bytes) : Except Fault Bytes :=
  if value.length < paramValueSize then .ok value else .error .overflow

/-- What `ReadParamStr` does with a line: go on if the name is not at its start. -/
def lineValue (name line : Bytes) : Option (Except Fault Bytes) :=
  if line.length = readBufSize then some (.error .overflow)
  else if strstr name (cstr line) = some 0 then
    some (storeValue (scanValue name ((cstr line).drop name.length)))
  else none

/-- What `ReadParamStr` leaves in the array for the value, which is empty if no line has the
parameter. -/
def valueIn (name : Bytes) (read : List Bytes) : Except Fault Bytes :=
  (read.findSome? (lineValue name)).getD (.ok [])

/-- `ReadParamStr`. Without a file the array is not touched. -/
def readParamStr (file : Option Bytes) (name : Bytes) : Except Fault (Option Bytes) :=
  match file with
  | none => .ok none
  | some text => (valueIn name (lines readBufSize text)).map some

/-! ### Writing -/

/-- The file of a group, and whether the new file next to it can be opened. -/
structure Storage where
  file : Option Bytes
  newOpens : Bool
deriving DecidableEq, Repr

/-- The text that `WriteParamStr` prints for a parameter. -/
def paramText (name value : Bytes) : Bytes :=
  if isSsid name then name ++ (32 :: 34 :: (value ++ [34, 10])) else name ++ (32 :: (value ++ [10]))

/-- What `WriteParamStr` prints for a line of the old file. -/
def rewriteLine (name value line : Bytes) : Bytes :=
  if strstr name (cstr line) = some 0 then paramText name value else cstr line

/-- The new file. -/
def rewriteFile (name value text : Bytes) : Bytes :=
  ((lines readBufSize text).map (rewriteLine name value)).flatten

/-- `WriteParamStr`, with its result. -/
def writeParamStr (name value : Bytes) (s : Storage) : Except Fault (ℤ × Storage) :=
  match s.file, s.newOpens with
  | some text, true =>
    if ∀ line ∈ lines readBufSize text, line.length ≠ readBufSize then
      .ok (0, { s with file := some (rewriteFile name value text) })
    else .error .line
  | _, _ => .ok (-1, s)

/-! ### What is read from a file that was written -/

/-- A line without a NUL, as it is in the buffer and in the string that the buffer holds. -/
theorem lineValue_eq {name line : Bytes} (hline : IsLine readBufSize line)
    (hnul : (0 : UInt8) ∉ line) :
    lineValue name line =
      if name <+: line then some (storeValue (scanValue name (line.drop name.length)))
      else none := by
  rw [lineValue, if_neg (Nat.ne_of_lt hline.short), cstr_eq_self hnul]
  simp only [strstr_eq_zero_iff]

/-- A line is replaced or copied, if its string begins with the name or is the whole line. -/
theorem rewriteLine_eq {name value line : Bytes} (hnul : (0 : UInt8) ∈ line → name <+: cstr line) :
    rewriteLine name value line = if name <+: line then paramText name value else line := by
  rw [rewriteLine]
  simp only [strstr_eq_zero_iff]
  by_cases hzero : (0 : UInt8) ∈ line
  · rw [if_pos (hnul hzero), if_pos ((hnul hzero).trans (List.takeWhile_prefix _))]
  · rw [cstr_eq_self hzero]

theorem endsLine_paramText (name value : Bytes) : EndsLine (paramText name value) := by
  have hconcat : ∃ front, paramText name value = front ++ [10] := by
    unfold paramText
    split
    · exact ⟨name ++ (32 :: 34 :: (value ++ [34])), by simp⟩
    · exact ⟨name ++ (32 :: value), by simp⟩
  obtain ⟨front, hfront⟩ := hconcat
  rw [EndsLine, hfront, List.getLast?_concat]

theorem nul_of_mem_lines {text line : Bytes} (hnul : (0 : UInt8) ∉ text)
    (hline : line ∈ lines readBufSize text) : (0 : UInt8) ∉ line := by
  intro hmem
  have hflat : (0 : UInt8) ∈ (lines readBufSize text).flatten :=
    mem_flatten.mpr ⟨line, hline, hmem⟩
  rw [flatten_lines] at hflat
  obtain ⟨b, hb, hzero⟩ := mem_map.mp hflat
  have hne : b ≠ 0 := fun h ↦ hnul (h ▸ hb)
  unfold lineByte at hzero
  split at hzero
  · cases hzero
  · exact hne hzero

/-- A file without a NUL whose lines all fit into the buffer. -/
structure IsText (text : Bytes) : Prop where
  no_nul : (0 : UInt8) ∉ text
  short : ∀ line ∈ lines readBufSize text, line.length ≠ readBufSize

/-- A file that is rewritten line by line: the lines fit into the buffer, and a line with a NUL is
one that is replaced. Another one would be copied up to the NUL and run into the next line. -/
structure Rewritable (name text : Bytes) : Prop where
  replaced : ∀ line ∈ lines readBufSize text, (0 : UInt8) ∈ line → name <+: cstr line
  short : ∀ line ∈ lines readBufSize text, line.length ≠ readBufSize

theorem IsText.rewritable {text : Bytes} (htext : IsText text) (name : Bytes) :
    Rewritable name text :=
  ⟨fun _ hline hzero ↦ absurd hzero (nul_of_mem_lines htext.no_nul hline), htext.short⟩

theorem Rewritable.isLine {name text line : Bytes} (htext : Rewritable name text)
    (hline : line ∈ lines readBufSize text) : IsLine readBufSize line :=
  isLine_of_mem_lines (by decide) hline (htext.short line hline)

/-- The lines of a rewritten file: each line with the name gives the lines of the printed text, and
the others are there as before. -/
theorem lines_rewrite {name text : Bytes} (htext : Rewritable name text) (value : Bytes) :
    lines readBufSize (rewriteFile name value text) =
      (lines readBufSize text).flatMap fun line ↦
        if name <+: line then lines readBufSize (paramText name value) else [line] := by
  rw [rewriteFile, lines_flatten_map]
  · apply flatMap_congr
    intro line hline
    rw [rewriteLine_eq (htext.replaced line hline)]
    split
    · rfl
    · exact lines_of_isLine (htext.isLine hline)
  · intro line hline
    rw [rewriteLine_eq (htext.replaced line (dropLast_subset _ hline))]
    split
    · exact endsLine_paramText name value
    · exact endsLine_of_mem_dropLast htext.short hline

/-- A successful write rewrites the lines of the file. -/
theorem writeParamStr_ok {name value text : Bytes} {s s' : Storage} (hfile : s.file = some text)
    (hwrite : writeParamStr name value s = .ok (0, s')) :
    s'.file = some (rewriteFile name value text) ∧
      ∀ line ∈ lines readBufSize text, line.length ≠ readBufSize := by
  unfold writeParamStr at hwrite
  rw [hfile] at hwrite
  split at hwrite
  · rename_i text' htext' hopens
    obtain rfl := Option.some.inj htext'
    split at hwrite
    · rename_i hshort
      obtain ⟨-, rfl⟩ := Prod.mk.inj (Except.ok.inj hwrite)
      exact ⟨rfl, hshort⟩
    · cases hwrite
  · cases hwrite

/-! ### Read after write -/

/-- The scan format reads the value back from the printed text: a network name has no quote and no
line break, except for a line feed at its end, and another value has no blank. -/
def Survives (name value : Bytes) : Prop :=
  if isSsid name then (34 : UInt8) ∉ value ∧ (13 : UInt8) ∉ value ∧ (10 : UInt8) ∉ value.dropLast
  else ∀ b ∈ value, isSpace b = false

instance (name value : Bytes) : Decidable (Survives name value) :=
  if hssid : isSsid name then
    decidable_of_iff ((34 : UInt8) ∉ value ∧ (13 : UInt8) ∉ value ∧ (10 : UInt8) ∉ value.dropLast)
      (iff_of_eq (if_pos hssid).symm)
  else
    decidable_of_iff (∀ b ∈ value, isSpace b = false) (iff_of_eq (if_neg hssid).symm)

/-- A word is read up to the end of its line. -/
theorem scanWord_concat {word : Bytes} (hword : ∀ b ∈ word, isSpace b = false) :
    scanWord (word ++ [10]) = word := by
  cases word with
  | nil => rfl
  | cons first rest =>
    have hfirst := hword first mem_cons_self
    rw [scanWord, cons_append, dropWhile_cons_of_neg (by rw [hfirst]; decide), ← cons_append]
    apply takeWhile_append_stop
    · intro b hb
      rw [hword b hb]
      rfl
    · intro b hb
      cases hb
      rfl

theorem isSpace_of_mem_scanWord {text : Bytes} {b : UInt8} (hb : b ∈ scanWord text) :
    isSpace b = false := by
  simpa using mem_takeWhile_imp hb

/-- A value is read from a quoted text up to the next quote. -/
theorem scanQuoted_quote (text : Bytes) : scanQuoted (32 :: 34 :: text) = text.takeWhile (· != 34) := by
  have hblank : (32 :: 34 :: text).dropWhile isSpace = 34 :: text := by
    rw [dropWhile_cons_of_pos (by decide), dropWhile_cons_of_neg (by decide)]
  rw [scanQuoted, hblank]
  exact if_pos rfl

theorem ne_break_of_isSpace {b : UInt8} (hb : isSpace b = false) : b ≠ 13 ∧ b ≠ 10 := by
  constructor
  · rintro rfl
    cases hb
  · rintro rfl
    cases hb

/-- A text is cut at its first line break, if it has one. -/
theorem exists_break (text : Bytes) :
    (∀ b ∈ text, b ≠ 13 ∧ b ≠ 10) ∨
      ∃ front b rest, text = front ++ b :: rest ∧ (∀ b ∈ front, b ≠ 13 ∧ b ≠ 10) ∧ lineByte b = 10 := by
  obtain ⟨front, back, rfl, hfront, hback⟩ :=
    exists_takeWhile_split (fun b : UInt8 ↦ b != 13 && b != 10) text
  have hplain : ∀ b ∈ front, b ≠ 13 ∧ b ≠ 10 := by simpa using hfront
  cases back with
  | nil => exact .inl (by simpa using hplain)
  | cons b rest =>
    refine .inr ⟨front, b, rest, rfl, hplain, ?_⟩
    have hstop := hback b rfl
    rw [lineByte_eq_feed, ← or_iff_not_imp_left.symm]
    simpa [← or_iff_not_imp_left] using hstop

section FirstLine

variable {name value : Bytes}

theorem IsParam.ne_break (hname : IsParam name) : ∀ b ∈ name, b ≠ 13 ∧ b ≠ 10 :=
  fun b hb ↦ ne_break_of_isSpace (hname.2.2 b hb).1

/-- The first line of a text that begins with the name of a parameter. -/
theorem lines_param (front rest : Bytes) {b : UInt8} (hname : IsParam name)
    (hfront : ∀ b ∈ front, b ≠ 13 ∧ b ≠ 10) (hbreak : lineByte b = 10)
    (hshort : front.length ≤ 130) :
    lines readBufSize (name ++ (front ++ b :: rest)) =
        (name ++ (front ++ [10])) :: lines readBufSize rest ∧
      IsLine readBufSize (name ++ (front ++ [10])) := by
  have hlong := hname.2.1
  have hlines : lines readBufSize (name ++ (front ++ b :: rest)) =
      (name ++ (front ++ [10])) :: lines readBufSize rest := by
    have hall : ∀ b ∈ name ++ front, b ≠ 13 ∧ b ≠ 10 := by
      intro b hb
      exact (mem_append.mp hb).elim (hname.ne_break b) (hfront b)
    have hcut := @linesFrom_stop readBufSize [] (name ++ front) rest b hall
      (by simp [readBufSize]; omega) (.inl hbreak)
    rw [hbreak] at hcut
    simpa [lines] using hcut
  refine ⟨hlines, isLine_of_mem_lines (by decide) (hlines ▸ mem_cons_self) ?_⟩
  simp only [length_append, length_singleton, readBufSize]
  omega

/-- The first line that is printed for a network name. -/
theorem exists_firstLine_quoted (hname : IsParam name) (hvalue : value.length ≤ 127) :
    ∃ tail more, lines readBufSize (name ++ (32 :: 34 :: (value ++ [34, 10]))) =
        (name ++ tail) :: more ∧ IsLine readBufSize (name ++ tail) ∧
      (scanQuoted tail = value ↔
        (34 : UInt8) ∉ value ∧ (13 : UInt8) ∉ value ∧ (10 : UInt8) ∉ value.dropLast) := by
  rcases exists_break value with hplain | ⟨front, b, rest, rfl, hfront, hbreak⟩
  · have hcut := lines_param (32 :: 34 :: (value ++ [34])) [] hname
      (by simpa [or_imp, forall_and] using hplain) (by decide : lineByte 10 = 10) (by simp; omega)
    refine ⟨32 :: 34 :: (value ++ [34, 10]), lines readBufSize [], by simpa using hcut.1,
      by simpa using hcut.2, ?_⟩
    rw [scanQuoted_quote]
    constructor
    · intro hread
      refine ⟨?_, fun hreturn ↦ (hplain _ hreturn).1 rfl,
        fun hfeed ↦ (hplain _ (dropLast_subset _ hfeed)).2 rfl⟩
      intro hquote
      rw [← hread] at hquote
      simpa using mem_takeWhile_imp hquote
    · rintro ⟨hquote, -, -⟩
      apply takeWhile_append_stop
      · intro b hb
        simp only [bne_iff_ne, ne_eq]
        rintro rfl
        exact hquote hb
      · intro b hb
        cases hb
        rfl
  · have hlong : (front ++ b :: rest).length = front.length + (rest.length + 1) := by simp
    have hcut := lines_param (32 :: 34 :: front) (rest ++ [34, 10]) hname
      (by simpa using hfront) hbreak (by simp; omega)
    refine ⟨32 :: 34 :: (front ++ [10]), lines readBufSize (rest ++ [34, 10]), by simpa using hcut.1,
      by simpa using hcut.2, ?_⟩
    rw [scanQuoted_quote]
    constructor
    · intro hread
      -- What is read is no longer than the first line, so the value ends with its line feed.
      have hstarts : front ++ b :: rest <+: front ++ [10] := hread ▸ List.takeWhile_prefix _
      rw [prefix_append_right_inj, cons_prefix_cons, prefix_nil] at hstarts
      obtain ⟨rfl, rfl⟩ := hstarts
      refine ⟨?_, ?_, ?_⟩
      · intro hquote
        rw [← hread] at hquote
        simpa using mem_takeWhile_imp hquote
      · rw [mem_append, mem_singleton]
        exact fun hreturn ↦ hreturn.elim (fun h ↦ (hfront _ h).1 rfl) (by decide)
      · rw [dropLast_concat]
        exact fun hfeed ↦ (hfront _ hfeed).2 rfl
    · rintro ⟨hquote, hreturn, hfeed⟩
      have hb : b = 10 := by
        refine (lineByte_eq_feed.mp hbreak).resolve_left ?_
        rintro rfl
        exact hreturn (by simp)
      subst hb
      have hlast : rest = [] := by
        by_contra hmore
        apply hfeed
        rw [dropLast_append_of_ne_nil (cons_ne_nil _ _), dropLast_cons_of_ne_nil hmore]
        simp
      subst hlast
      apply takeWhile_eq_self_iff.mpr
      intro b hb
      simp only [bne_iff_ne, ne_eq]
      rintro rfl
      exact hquote hb

/-- The first line that is printed for another value. -/
theorem exists_firstLine_plain (hname : IsParam name) (hvalue : value.length ≤ 127) :
    ∃ tail more, lines readBufSize (name ++ (32 :: (value ++ [10]))) = (name ++ tail) :: more ∧
      IsLine readBufSize (name ++ tail) ∧
      (scanWord tail = value ↔ ∀ b ∈ value, isSpace b = false) := by
  have hread {tail : Bytes} (hread : scanWord tail = value) : ∀ b ∈ value, isSpace b = false := by
    intro b hb
    rw [← hread] at hb
    exact isSpace_of_mem_scanWord hb
  rcases exists_break value with hplain | ⟨front, b, rest, rfl, hfront, hbreak⟩
  · have hcut := lines_param (32 :: value) [] hname
      (by simpa using hplain) (by decide : lineByte 10 = 10) (by simp; omega)
    refine ⟨32 :: (value ++ [10]), lines readBufSize [], by simpa using hcut.1,
      by simpa using hcut.2, hread, fun hsolid ↦ ?_⟩
    have hblank : (32 :: (value ++ [10])).dropWhile isSpace = (value ++ [10]).dropWhile isSpace :=
      dropWhile_cons_of_pos (by decide)
    rw [scanWord, hblank]
    exact scanWord_concat hsolid
  · have hlong : (front ++ b :: rest).length = front.length + (rest.length + 1) := by simp
    have hcut := lines_param (32 :: front) (rest ++ [10]) hname
      (by simpa using hfront) hbreak (by simp; omega)
    refine ⟨32 :: (front ++ [10]), lines readBufSize (rest ++ [10]), by simpa using hcut.1,
      by simpa using hcut.2, hread, fun hsolid ↦ ?_⟩
    have hb := ne_break_of_isSpace (hsolid b (by simp))
    exact absurd (lineByte_eq_feed.mp hbreak) (not_or.mpr hb)

/-- The first line of the text that is printed for a parameter, and what is read from it. -/
theorem exists_firstLine (hname : IsParam name) (hvalue : value.length ≤ 127) :
    ∃ tail more, lines readBufSize (paramText name value) = (name ++ tail) :: more ∧
      IsLine readBufSize (name ++ tail) ∧
      (scanValue name tail = value ↔ Survives name value) := by
  unfold paramText scanValue Survives
  by_cases hssid : isSsid name = true
  · simp only [if_pos hssid]
    exact exists_firstLine_quoted hname hvalue
  · simp only [if_neg hssid]
    exact exists_firstLine_plain hname hvalue

theorem nul_paramText (hname : IsParam name) (hnul : (0 : UInt8) ∉ value) :
    (0 : UInt8) ∉ paramText name value := by
  have hzero : (0 : UInt8) ∉ name := fun hmem ↦ (hname.2.2 _ hmem).2.2 rfl
  unfold paramText
  split
  · simp [hzero, hnul]
  · simp [hzero, hnul]

/-- What is read from the text that is printed for a parameter. -/
theorem valueIn_paramText (hname : IsParam name) (hvalue : value.length ≤ 127)
    (hnul : (0 : UInt8) ∉ value) :
    ∃ result, (lines readBufSize (paramText name value)).findSome? (lineValue name) = some result ∧
      (result = .ok value ↔ Survives name value) := by
  obtain ⟨tail, more, hlines, hline, hreads⟩ := exists_firstLine hname hvalue
  have hzero : (0 : UInt8) ∉ name ++ tail :=
    nul_of_mem_lines (nul_paramText hname hnul) (hlines ▸ mem_cons_self)
  refine ⟨storeValue (scanValue name tail), ?_, ?_⟩
  · rw [hlines, List.findSome?_cons, lineValue_eq hline hzero, if_pos (prefix_append _ _),
      drop_left]
  · rw [← hreads, storeValue]
    split
    · rw [Except.ok.injEq]
    · rename_i hlong
      refine iff_of_false nofun fun hsame ↦ hlong ?_
      rw [hsame, paramValueSize]
      omega

end FirstLine

/-- Where a parameter is found in a rewritten file. -/
theorem findSome?_rewrite {name : Bytes} {read printed : List Bytes} {result : Except Fault Bytes}
    (hread : ∀ line ∈ read,
      IsLine readBufSize line ∧ ((0 : UInt8) ∈ line → name <+: cstr line))
    (hprinted : printed.findSome? (lineValue name) = some result) :
    (read.flatMap fun line ↦ if name <+: line then printed else [line]).findSome? (lineValue name) =
      if ∃ line ∈ read, name <+: line then some result else none := by
  induction read with
  | nil => simp
  | cons first rest ih =>
    rw [forall_mem_cons] at hread
    obtain ⟨⟨hline, hreplaced⟩, hrest⟩ := hread
    rw [flatMap_cons, List.findSome?_append, ih hrest]
    by_cases hfirst : name <+: first
    · simp [hfirst, hprinted]
    · have hzero : (0 : UInt8) ∉ first := fun hzero ↦
        hfirst ((hreplaced hzero).trans (List.takeWhile_prefix _))
      simp [hfirst, lineValue_eq hline hzero]

/-- A value that was written is read back exactly if the file has a line for the parameter and the
scan format can read it. The empty value is read from a file without such a line as well. A NUL byte
may be in the lines that are replaced, not in those that are copied. -/
theorem read_after_write_iff (group : Group) {name value text : Bytes} {s s' : Storage}
    (hname : name ∈ group.params) (hvalue : value.length ≤ 127) (hnul : (0 : UInt8) ∉ value)
    (hfile : s.file = some text)
    (htext : ∀ line ∈ lines readBufSize text, (0 : UInt8) ∈ line → name <+: cstr line)
    (hwrite : writeParamStr name value s = .ok (0, s')) :
    readParamStr s'.file name = .ok (some value) ↔
      (value = [] ∨ ∃ line ∈ lines readBufSize text, name <+: line) ∧ Survives name value := by
  obtain ⟨hnew, hshort⟩ := writeParamStr_ok hfile hwrite
  have hsource : Rewritable name text := ⟨htext, hshort⟩
  have hread : ∀ line ∈ lines readBufSize text,
      IsLine readBufSize line ∧ ((0 : UInt8) ∈ line → name <+: cstr line) :=
    fun line hline ↦ ⟨hsource.isLine hline, htext line hline⟩
  obtain ⟨result, hprinted, hresult⟩ := valueIn_paramText (isParam_of_mem hname) hvalue hnul
  rw [hnew, readParamStr, lines_rewrite hsource, valueIn, findSome?_rewrite hread hprinted]
  by_cases hfound : ∃ line ∈ lines readBufSize text, name <+: line
  · rw [if_pos hfound, ← hresult]
    simp only [hfound, or_true, true_and, Option.getD_some]
    cases result <;> simp [Except.map]
  · rw [if_neg hfound]
    simp only [hfound, or_false, Option.getD_none, Except.map, Except.ok.injEq, Option.some.injEq]
    constructor
    · rintro rfl
      refine ⟨rfl, ?_⟩
      unfold Survives
      split <;> simp
    · rintro ⟨rfl, -⟩
      rfl

/-- A network configuration with a key. -/
def keyFile : Storage := ⟨some (ascii "SSID \"home\"\nAUTH_KEY old\n"), true⟩

/-- The same with a NUL in the key. -/
def nulKeyFile : Storage := ⟨some (ascii "SSID \"home\"\nAUTH_KEY o" ++ 0 :: ascii "ld\n"), true⟩

/-- The configuration after another key was written. -/
def keyFileWritten (value : String) : Storage :=
  ⟨some (ascii "SSID \"home\"\nAUTH_KEY " ++ (ascii value ++ [10])), true⟩

theorem read_after_write_new_key :
    writeParamStr (ascii "AUTH_KEY") (ascii "new") nulKeyFile = .ok (0, keyFileWritten "new") ∧
      readParamStr (keyFileWritten "new").file (ascii "AUTH_KEY") = .ok (some (ascii "new")) := by
  have hwrite : writeParamStr (ascii "AUTH_KEY") (ascii "new") nulKeyFile =
      .ok (0, keyFileWritten "new") := by decide +kernel
  refine ⟨hwrite, (read_after_write_iff .wifi (by decide) (by decide) (by decide) rfl
    (by decide) hwrite).mpr ⟨.inr ⟨ascii "AUTH_KEY o" ++ 0 :: ascii "ld\n", by decide, by decide⟩,
      by decide⟩⟩

/-- A key with a blank is read back only up to the blank. -/
theorem key_cut_at_blank :
    ascii "AUTH_KEY" ∈ Group.wifi.params ∧
      writeParamStr (ascii "AUTH_KEY") (ascii "my key") keyFile =
        .ok (0, keyFileWritten "my key") ∧
      readParamStr (keyFileWritten "my key").file (ascii "AUTH_KEY") = .ok (some (ascii "my")) := by
  decide +kernel

end WisCam.Rest
