import WisCam.Foundations.Scan
import WisCam.Rest.Escapes

/-!
# Reading the configuration files into a buffer

`ReadLine` stores a line in an array and a NUL behind it. A line ends when it has as many bytes as
the array, and the NUL is then stored behind the array.

`read_lines_iff` says that the calls until the end of the file stay inside the array, and give back
the whole file, exactly if each line is shorter than the array, its line end included.
-/

set_option autoImplicit false

namespace WisCam.Rest

open Foundations List

/-! ### The function -/

/-- The loop of `ReadLine`: the number of bytes that it has stored, the array, and what is left of
the file. -/
def readLineLoop (buf : Bytes) (readBytes : ℕ) : Bytes → Except Fault (ℕ × Bytes × Bytes)
  | [] => .ok (readBytes, buf, [])
  | b :: rest => do
    let buf' ← putChar buf readBytes (lineByte b)
    if lineByte b = 10 ∨ readBytes + 1 = buf.length then return (readBytes + 1, buf', rest)
    else readLineLoop buf' (readBytes + 1) rest

/-- `ReadLine` on an array of the size it is told: the result, the array, and what is left of the
file. Nothing is stored only where the file has ended. -/
def readLine (buf stream : Bytes) : Except Fault (ℤ × Bytes × Bytes) := do
  let (readBytes, buf, rest) ← readLineLoop buf 0 stream
  if readBytes = 0 then return (-1, buf, rest)
  else
    let buf ← putChar buf readBytes 0
    return (readBytes, buf, rest)

/-- Successive calls until the result is negative, with the array that each of the others leaves. -/
inductive ReadCalls : Bytes → Bytes → List Bytes → Prop
  | stop {buf stream buf' rest : Bytes} {ret : ℤ}
      (hcall : readLine buf stream = .ok (ret, buf', rest)) (hret : ret < 0) :
      ReadCalls buf stream []
  | next {buf stream buf' rest : Bytes} {ret : ℤ} {arrays : List Bytes}
      (hcall : readLine buf stream = .ok (ret, buf', rest)) (hret : 0 ≤ ret)
      (hcalls : ReadCalls buf' rest arrays) : ReadCalls buf stream (buf' :: arrays)

/-- Each line is shorter than the array: in as many bytes as the array has, there is a line end
before the last. -/
def ShortLines (size : ℕ) (text : Bytes) : Prop :=
  ∀ i, i + size ≤ text.length →
    ∃ j, i ≤ j ∧ j + 1 < i + size ∧ (text[j]? = some 13 ∨ text[j]? = some 10)

/-! ### One call -/

section Calls

variable {buf front more stream : Bytes} {i : ℕ}

/-- The loop stores the next line. -/
theorem readLineLoop_at (hcut : CutAt buf i front more) (hroom : more ≠ [])
    (hsome : front ≠ [] ∨ stream ≠ []) :
    ∃ line behind buf' rest, readLineLoop buf i stream = .ok (line.length, buf', rest) ∧
      CutAt buf' line.length line behind ∧ line ≠ [] ∧ buf'.length = buf.length ∧
      linesFrom buf.length front stream = line :: lines buf.length rest := by
  induction stream generalizing buf i front more with
  | nil =>
    have hfront := hsome.resolve_right (not_not.mpr rfl)
    refine ⟨front, more, buf, [], by rw [hcut.length]; rfl, ⟨hcut.append, rfl⟩, hfront, rfl, ?_⟩
    rw [linesFrom, if_neg hfront]
    rfl
  | cons b stream ih =>
    obtain ⟨x, more, rfl⟩ := exists_cons_of_ne_nil hroom
    have hstored := (hcut.set (lineByte b)).next
    have hlength : (buf.set i (lineByte b)).length = buf.length := length_set
    rw [readLineLoop, putChar, if_pos hcut.lt, ok_bind, linesFrom, hcut.length]
    split_ifs with hend
    · exact ⟨front ++ [lineByte b], more, _, stream, by rw [hstored.length]; rfl,
        ⟨hstored.append, rfl⟩, by simp, hlength, rfl⟩
    · have hroom' : more ≠ [] := by
        rintro rfl
        refine hend (.inr ?_)
        rw [hcut.append, length_append, hcut.length, length_singleton]
      have hrest := ih hstored hroom' (.inl (by simp))
      rwa [hlength] at hrest

/-- One call stores the next line, and the NUL where there is room behind it. -/
theorem readLine_eq (hbuf : buf ≠ []) (hstream : stream ≠ []) :
    ∃ line rest, lines buf.length stream = line :: lines buf.length rest ∧
      (line.length = buf.length ∧ readLine buf stream = .error .overflow ∨
        ∃ behind, line.length ≠ buf.length ∧ (line ++ 0 :: behind).length = buf.length ∧
          readLine buf stream = .ok (line.length, line ++ 0 :: behind, rest)) := by
  obtain ⟨line, behind, buf', rest, hloop, hcut, hne, hlength, hlines⟩ :=
    readLineLoop_at (.start buf) hbuf (.inr hstream)
  refine ⟨line, rest, hlines, ?_⟩
  rw [readLine, hloop, ok_bind]
  dsimp only
  rw [if_neg (length_pos_of_ne_nil hne).ne', putChar, ← hlength]
  cases behind with
  | nil =>
    have hfull : line.length = buf'.length := by rw [hcut.append, append_nil]
    rw [if_neg hfull.not_lt]
    exact .inl ⟨hfull, rfl⟩
  | cons x behind =>
    have hnul := hcut.set 0
    rw [if_pos hcut.lt]
    refine .inr ⟨behind, hcut.lt.ne, ?_, ?_⟩
    · rw [← hnul.append, length_set]
    · rw [← hnul.append]
      rfl

theorem short_of_readCalls {arrays : List Bytes} (hbuf : buf ≠ [])
    (hcalls : ReadCalls buf stream arrays) :
    ∀ line ∈ lines buf.length stream, line.length ≠ buf.length := by
  induction hcalls with
  | @stop buf stream buf' rest ret hcall hret =>
    by_cases hstream : stream = []
    · subst hstream
      exact nofun
    · obtain ⟨line, rest, -, ⟨-, heq⟩ | ⟨behind, -, -, heq⟩⟩ := readLine_eq hbuf hstream
      · cases heq.symm.trans hcall
      · cases heq.symm.trans hcall
        omega
  | @next buf stream buf' rest ret arrays hcall hret _ ih =>
    by_cases hstream : stream = []
    · subst hstream
      exact nofun
    · obtain ⟨line, rest, hlines, ⟨-, heq⟩ | ⟨behind, hline, hlength, heq⟩⟩ :=
        readLine_eq hbuf hstream
      · cases heq.symm.trans hcall
      · cases heq.symm.trans hcall
        have hlater := ih (by simp)
        rw [hlength] at hlater
        rw [hlines]
        exact forall_mem_cons.mpr ⟨hline, hlater⟩

theorem readCalls_of_short {read : List Bytes} (hbuf : buf ≠ [])
    (hread : lines buf.length stream = read) (hshort : ∀ line ∈ read, line.length ≠ buf.length) :
    ∃ arrays, ReadCalls buf stream arrays ∧ (∀ array ∈ arrays, (0 : UInt8) ∈ array) ∧
      ((∀ line ∈ read, (0 : UInt8) ∉ line) → arrays.map cstr = read) := by
  induction read generalizing buf stream with
  | nil =>
    have hstream : stream = [] := by
      by_contra hne
      obtain ⟨line, rest, hlines, -⟩ := readLine_eq hbuf hne
      cases hread.symm.trans hlines
    subst hstream
    exact ⟨[], .stop rfl (by decide), nofun, fun _ ↦ rfl⟩
  | cons line read ih =>
    have hstream : stream ≠ [] := by
      rintro rfl
      cases hread
    obtain ⟨hline, hlater⟩ := forall_mem_cons.mp hshort
    obtain ⟨line', rest, hlines, hcall⟩ := readLine_eq hbuf hstream
    obtain ⟨rfl, hrest⟩ := cons.inj (hread.symm.trans hlines)
    obtain ⟨behind, -, hlength, heq⟩ := hcall.resolve_left fun hfull ↦ hline hfull.1
    obtain ⟨arrays, hcalls, hends, hstrings⟩ :=
      @ih (line ++ 0 :: behind) rest (by simp) (by rw [hlength, hrest]) (by rwa [hlength])
    refine ⟨_, .next heq (Int.natCast_nonneg _) hcalls, forall_mem_cons.mpr ⟨by simp, hends⟩,
      fun hnul ↦ ?_⟩
    obtain ⟨hnone, hnul⟩ := forall_mem_cons.mp hnul
    rw [map_cons, hstrings hnul, cstr_append hnone]
    exact congrArg (· :: read) (append_nil line)

end Calls

/-! ### Lines that are short -/

section ShortLines

variable {size : ℕ} {front rest text : Bytes} {b : UInt8}

/-- Plain bytes that leave no room for another are a line that is not short. -/
theorem not_shortLines (hfull : front.length + 1 = size)
    (hplain : ∀ b ∈ front, b ≠ 13 ∧ b ≠ 10) : ¬ ShortLines size (front ++ b :: rest) := by
  intro hshort
  obtain ⟨j, -, hj, hbreak⟩ := hshort 0 (by rw [length_append, length_cons]; omega)
  rw [List.getElem?_append_left (by omega)] at hbreak
  rcases hbreak with h | h
  · exact (hplain _ (mem_of_getElem? h)).1 rfl
  · exact (hplain _ (mem_of_getElem? h)).2 rfl

/-- What stands before the first line end has no influence on the later lines. -/
theorem shortLines_append_iff (hfront : front.length < size)
    (hplain : ∀ b ∈ front, b ≠ 13 ∧ b ≠ 10) (hend : b = 13 ∨ b = 10) :
    ShortLines size (front ++ b :: rest) ↔ front.length + 1 ≠ size ∧ ShortLines size rest := by
  have hlater (j : ℕ) : (front ++ b :: rest)[front.length + 1 + j]? = rest[j]? := by
    rw [List.getElem?_append_right (by omega),
      show front.length + 1 + j - front.length = j + 1 by omega, List.getElem?_cons_succ]
  have hlength : (front ++ b :: rest).length = front.length + 1 + rest.length := by
    rw [length_append, length_cons]
    omega
  constructor
  · refine fun hshort ↦ ⟨fun hfull ↦ not_shortLines hfull hplain hshort, fun i hi ↦ ?_⟩
    obtain ⟨j, hle, hj, hbreak⟩ := hshort (front.length + 1 + i) (by omega)
    obtain ⟨k, rfl⟩ := Nat.exists_eq_add_of_le (show front.length + 1 ≤ j by omega)
    rw [hlater] at hbreak
    exact ⟨k, by omega, by omega, hbreak⟩
  · rintro ⟨hroom, hshort⟩ i hi
    rcases Nat.lt_or_ge front.length i with hlt | hle
    · obtain ⟨k, rfl⟩ := Nat.exists_eq_add_of_le hlt
      obtain ⟨j, hkj, hj, hbreak⟩ := hshort k (by omega)
      exact ⟨front.length + 1 + j, by omega, by omega, by rwa [hlater]⟩
    · refine ⟨front.length, hle, by omega, ?_⟩
      rw [List.getElem?_append_right (Nat.le_refl _), Nat.sub_self, List.getElem?_cons_zero]
      exact hend.imp (congrArg some) (congrArg some)

theorem linesFrom_short_iff (hfront : front.length < size)
    (hplain : ∀ b ∈ front, b ≠ 13 ∧ b ≠ 10) :
    (∀ line ∈ linesFrom size front text, line.length ≠ size) ↔ ShortLines size (front ++ text) := by
  induction text generalizing front with
  | nil =>
    refine iff_of_true ?_ fun i hi ↦ ?_
    · rw [linesFrom]
      split_ifs
      · exact forall_mem_nil _
      · exact forall_mem_singleton.mpr hfront.ne
    · rw [append_nil] at hi
      omega
  | cons b rest ih =>
    have hstored : (front ++ [lineByte b]).length = front.length + 1 := by simp
    rw [linesFrom]
    by_cases hend : lineByte b = 10
    · rw [if_pos (.inl hend), forall_mem_cons, hstored,
        shortLines_append_iff hfront hplain (lineByte_eq_feed.mp hend),
        ih (by rw [length_nil]; omega) (forall_mem_nil _)]
      rfl
    by_cases hfull : front.length + 1 = size
    · rw [if_pos (.inr hfull), forall_mem_cons, hstored]
      exact iff_of_false (fun h ↦ h.1 hfull) (not_shortLines hfull hplain)
    · have hplain' : ∀ c ∈ front ++ [lineByte b], c ≠ 13 ∧ c ≠ 10 := by
        intro c hc
        rcases mem_append.mp hc with hc | hc
        · exact hplain c hc
        · rw [mem_singleton.mp hc]
          exact ⟨lineByte_ne_return b, hend⟩
      rw [if_neg (not_or.mpr ⟨hend, hfull⟩), ih (by omega) hplain',
        lineByte_of_ne fun hreturn ↦ hend (lineByte_eq_feed.mpr (.inl hreturn)), append_assoc]
      rfl

end ShortLines

/-- The calls until the end of the file write only inside the array, leave a string in it each, and
these strings are together the file with CR replaced by LF (if it has no NUL), exactly if its lines
are shorter than the array. -/
theorem read_lines_iff (buf file : Bytes) (hsize : 2 ≤ buf.length) :
    (∃ arrays, ReadCalls buf file arrays ∧ (∀ array ∈ arrays, (0 : UInt8) ∈ array) ∧
        ((0 : UInt8) ∉ file → (arrays.map cstr).flatten = file.map lineByte)) ↔
      ShortLines buf.length file := by
  have hbuf : buf ≠ [] := ne_nil_of_length_pos (by omega)
  have hiff := @linesFrom_short_iff buf.length [] file (by simp; omega) nofun
  rw [nil_append] at hiff
  rw [← hiff]
  constructor
  · rintro ⟨arrays, hcalls, -⟩
    exact short_of_readCalls hbuf hcalls
  · intro hshort
    obtain ⟨arrays, hcalls, hends, hstrings⟩ := readCalls_of_short hbuf rfl hshort
    refine ⟨arrays, hcalls, hends, fun hnul ↦ ?_⟩
    rw [hstrings, flatten_lines]
    intro line hline hzero
    have hmem : (0 : UInt8) ∈ file.map lineByte :=
      @flatten_lines buf.length file ▸ mem_flatten_of_mem hline hzero
    obtain ⟨b, hb, hbyte⟩ := mem_map.mp hmem
    unfold lineByte at hbyte
    split_ifs at hbyte
    · cases hbyte
    · exact hnul (hbyte ▸ hb)

theorem read_lines_two :
    ∃ arrays, ReadCalls [0, 0, 0, 0] (ascii "a\rb\n") arrays ∧
      (∀ array ∈ arrays, (0 : UInt8) ∈ array) ∧
      ((0 : UInt8) ∉ ascii "a\rb\n" →
        (arrays.map cstr).flatten = (ascii "a\rb\n").map lineByte) := by
  refine (read_lines_iff [0, 0, 0, 0] (ascii "a\rb\n") (by decide)).mpr fun i hi ↦ ?_
  have hfirst : i + 4 ≤ 4 := hi
  exact ⟨1, by omega, show 1 + 1 < i + 4 by omega, .inl (by decide)⟩

/-- A line of two bytes in an array of two bytes: the NUL is stored behind it. -/
theorem nul_behind_array : readLine [0, 0] (ascii "a\n") = .error .overflow := by decide

end WisCam.Rest
