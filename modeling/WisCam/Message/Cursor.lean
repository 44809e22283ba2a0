import WisCam.Message.HeaderTable

/-!
# The cursor of `parse_pmsg`

Several stores and reads of `parse_pmsg` are not guarded by a comparison with the length. They stay
inside the buffer because of the blank line that a message is known to contain: the parser cuts
words and lines only up to the first line end of the blank line, and when the cursor comes to the
second one it returns. `Before` says where the cursor is and that the bytes of the blank line that
it has still to meet are there; each function of the parser keeps this. The other part of each
lemma is that the words end: a NUL has been stored behind every one that was cut out, and no store
removes a NUL (`Zeroed`).
-/

set_option autoImplicit false

namespace WisCam.Message

open Foundations List

/-! ### Strings inside the buffer -/

/-- There is a NUL at the offset or after it. -/
def Ends (d : Bytes) (offset : ℕ) : Prop := ∃ k, offset ≤ k ∧ d[k]? = some 0

/-- The bytes after some stores of NULs. -/
structure Zeroed (d d' : Bytes) : Prop where
  length : d'.length = d.length
  nul : ∀ k : ℕ, d[k]? = some 0 → d'[k]? = some 0

theorem Zeroed.refl (d : Bytes) : Zeroed d d := ⟨rfl, fun _ h ↦ h⟩

theorem Zeroed.trans {d d' d'' : Bytes} (h : Zeroed d d') (h' : Zeroed d' d'') : Zeroed d d'' :=
  ⟨h'.length.trans h.length, fun k hk ↦ h'.nul k (h.nul k hk)⟩

theorem zeroed_set (d : Bytes) (i : ℕ) : Zeroed d (d.set i 0) := by
  refine ⟨length_set, fun k hk ↦ ?_⟩
  by_cases hik : i = k
  · subst hik
    exact List.getElem?_set_self (List.getElem?_eq_some_iff.mp hk).1
  · rw [List.getElem?_set_ne hik]
    exact hk

theorem Ends.zeroed {d d' : Bytes} {offset : ℕ} (hends : Ends d offset) (h : Zeroed d d') :
    Ends d' offset := by
  obtain ⟨k, hk, hnul⟩ := hends
  exact ⟨k, hk, h.nul k hnul⟩

/-- The method and the URI of a request, or the reason of a response. -/
def StatusLine.offsets : StatusLine → List ℕ
  | .req method uri => [method, uri]
  | .stat _ reason => reason.toList

/-- The pointers into a message: the protocol word, those of the status line, and the names and
values of the headers. -/
def Pmsg.offsets (m : Pmsg) : List ℕ :=
  m.protoId.toList ++ m.sl.offsets ++ m.fields.flatMap fun field ↦ [field.name, field.value]

/-! ### The blank line -/

/-- The cursor is not behind the CR at `p + 2`, and from the cursor on the bytes from `p` are those
of a blank line. The CR at `p` may have been cut off by a NUL when the cursor is behind it. -/
structure Before (p : ℕ) (d : Bytes) (i : ℕ) : Prop where
  le : i ≤ p + 2
  cr : i ≤ p → d[p]? = some 13
  lf : d[p + 1]? = some 10
  cr' : d[p + 2]? = some 13
  lf' : d[p + 3]? = some 10

variable {p i : ℕ} {d : Bytes}

/-- A scan from the cursor stops at the latest at a byte that stops it. -/
theorem scan_le {k : ℕ} {b : UInt8} {q : UInt8 → Bool} (hik : i ≤ k) (hk : d[k]? = some b)
    (hq : q b = false) : i + ((d.drop i).takeWhile q).length ≤ k := by
  have hdrop : (d.drop i)[k - i]? = some b := by
    rw [List.getElem?_drop, Nat.add_sub_cancel' hik]
    exact hk
  have hle := length_takeWhile_le hdrop hq
  omega

namespace Before

theorem lt_length (h : Before p d i) : p + 3 < d.length := (List.getElem?_eq_some_iff.mp h.lf').1

/-- The cursor moves on. -/
theorem move (h : Before p d i) {j : ℕ} (hij : i ≤ j) (hj : j ≤ p + 2) : Before p d j :=
  ⟨hj, fun hjp ↦ h.cr (hij.trans hjp), h.lf, h.cr', h.lf'⟩

/-- A NUL is stored in front of the second part of the blank line, and the cursor is behind it. -/
theorem set (h : Before p d i) {j k : ℕ} (hij : i ≤ j) (hj : j ≤ p + 2) (hkj : k < j)
    (hk : k ≤ p) : Before p (d.set k 0) j := by
  refine ⟨hj, fun hjp ↦ ?_, ?_, ?_, ?_⟩
  · rw [List.getElem?_set_ne (by omega)]
    exact h.cr (hij.trans hjp)
  · rw [List.getElem?_set_ne (by omega)]
    exact h.lf
  · rw [List.getElem?_set_ne (by omega)]
    exact h.cr'
  · rw [List.getElem?_set_ne (by omega)]
    exact h.lf'

theorem delim_le (h : Before p d i) (hi : i ≤ p) (term1 term2 : UInt8) :
    i + delim (d.drop i) term1 term2 ≤ p :=
  scan_le hi (h.cr hi) (by simp)

theorem skipSpaces_le (h : Before p d i) (hi : i ≤ p) : skipSpaces d i ≤ p :=
  scan_le hi (h.cr hi) (by decide)

end Before

theorem le_skipSpaces (d : Bytes) (i : ℕ) : i ≤ skipSpaces d i := Nat.le_add_right _ _

/-- How the parser may stop on a message with a blank line. -/
def Rejects (stop : ParseStop) : Prop := stop = .malformed ∨ stop = .fieldOutside

theorem ensures_require {condition : Bool} :
    Ensures Rejects (fun _ ↦ condition = true) (require condition) := by
  cases condition with
  | true => exact rfl
  | false => exact .inl rfl

theorem ensures_putNul {P : Bytes → Prop} (hi : i < d.length) (hP : P (d.set i 0)) :
    Ensures Rejects P (putNul d i) := by
  rw [putNul, if_pos hi]
  exact hP

/-! ### Words and lines -/

/-- A word is cut out in front of the blank line. -/
theorem Before.cutWord (h : Before p d i) (hi : i ≤ p) :
    Ensures Rejects (fun r ↦ Before p r.1 r.2 ∧ r.2 ≤ p ∧ Zeroed d r.1 ∧ Ends r.1 i)
      (cutWord d i) := by
  have hle := h.delim_le hi 32 0
  have hlen := h.lt_length
  unfold Message.cutWord
  refine ensures_require.bind fun _ hspace ↦ ?_
  rw [beq_iff_eq] at hspace
  -- The blank line begins with a CR, so the space is in front of it.
  have hlt : i + delim (d.drop i) 32 0 < p := by
    refine lt_of_le_of_ne hle fun heq ↦ ?_
    rw [heq, h.cr hi] at hspace
    cases hspace
  refine (ensures_putNul (P := fun d' ↦ d' = d.set (i + delim (d.drop i) 32 0) 0) (by omega)
    rfl).bind fun d' hd' ↦ ?_
  subst hd'
  have hset := h.set (j := i + delim (d.drop i) 32 0 + 1) (by omega) (by omega) (by omega) hle
  have hskip := hset.skipSpaces_le (by omega)
  refine ⟨hset.move (le_skipSpaces _ _) (by omega), hskip, zeroed_set d _, _, Nat.le_add_right _ _,
    List.getElem?_set_self (by omega)⟩

/-- The rest of a line is cut off at the latest at the blank line. -/
theorem Before.cutLine (h : Before p d i) (hi : i ≤ p) :
    Ensures Rejects (fun r ↦ Before p r.1 r.2 ∧ i < r.2 ∧ r.2 ≤ p + 1 ∧ Zeroed d r.1 ∧ Ends r.1 i)
      (cutLine d i) := by
  have hle := h.delim_le hi 0 0
  have hlen := h.lt_length
  unfold Message.cutLine
  refine (ensures_putNul (P := fun d' ↦ d' = d.set (i + delim (d.drop i) 0 0) 0) (by omega)
    rfl).bind fun d' hd' ↦ ?_
  subst hd'
  exact ⟨h.set (by omega) (by omega) (by omega) hle, by omega, by omega, zeroed_set d _, _,
    Nat.le_add_right _ _, List.getElem?_set_self (by omega)⟩

theorem skipCr_bounds (d : Bytes) (i : ℕ) : i ≤ skipCr d i ∧ skipCr d i ≤ i + 1 := by
  rw [skipCr]
  split_ifs <;> omega

/-- A CR is skipped: the cursor stays in front of the blank line, or it is at one of its LFs. -/
theorem Before.skipCr_le (h : Before p d i) (hlf : d[skipCr d i]? ≠ some 10) : skipCr d i ≤ p := by
  have hle := h.le
  by_contra hlt
  obtain ⟨hcr, hcr'⟩ := skipCr_bounds d i
  have hcases : skipCr d i = p + 1 ∨ skipCr d i = p + 2 ∨ skipCr d i = p + 3 := by omega
  rcases hcases with heq | heq | heq
  · exact hlf (heq ▸ h.lf)
  · rw [skipCr] at heq
    split_ifs at heq with hcr
    · have hi : i = p + 1 := by omega
      rw [hi, h.lf] at hcr
      cases hcr
    · exact hcr (heq ▸ h.cr')
  · exact hlf (heq ▸ h.lf')

/-- The first line ends in front of the second CR of the blank line. -/
theorem Before.parseLineEnd (h : Before p d i) (hi : i ≤ p + 1) :
    Ensures Rejects (Before p d) (parseLineEnd d i) := by
  have hspaces : skipSpaces d i ≤ p + 1 := scan_le hi h.lf (by decide)
  have hstart := le_skipSpaces d i
  obtain ⟨hcr, hcr'⟩ := skipCr_bounds d (skipSpaces d i)
  unfold Message.parseLineEnd
  refine ensures_require.bind fun _ hlf ↦ ?_
  rw [beq_iff_eq] at hlf
  have hne : skipCr d (skipSpaces d i) ≠ p + 2 := by
    intro heq
    rw [heq, h.cr'] at hlf
    cases hlf
  exact h.move (by omega) (by omega)

/-! ### Headers -/

theorem Before.parseName (h : Before p d i) (hi : i ≤ p) :
    Ensures Rejects (fun r ↦ Before p r.1 r.2 ∧ i ≤ r.2 ∧ r.2 ≤ p ∧ Zeroed d r.1)
      (parseName d i) := by
  have hle := h.delim_le hi 32 58
  have hlen := h.lt_length
  unfold Message.parseName
  refine ensures_require.bind fun _ _ ↦ ?_
  split_ifs with hspace
  · have hlt : i + delim (d.drop i) 32 58 < p := by
      refine lt_of_le_of_ne hle fun heq ↦ ?_
      rw [heq, h.cr hi] at hspace
      cases hspace
    refine (ensures_putNul (P := (· = d.set (i + delim (d.drop i) 32 58) 0)) (by omega)
      rfl).bind fun d' hd' ↦ ?_
    subst hd'
    have hset := h.set (j := i + delim (d.drop i) 32 58 + 1) (by omega) (by omega) (by omega) hle
    have hskip := hset.skipSpaces_le hlt
    have hstart := le_skipSpaces (d.set (i + delim (d.drop i) 32 58) 0)
      (i + delim (d.drop i) 32 58 + 1)
    exact ⟨hset.move hstart (by omega), by omega, hskip, zeroed_set d _⟩
  · exact ⟨h.move (by omega) (by omega), Nat.le_add_right _ _, hle, .refl d⟩

/-- From the colon on: the name is ended by the NUL in place of the colon. -/
theorem Before.parseValue (h : Before p d i) (hi : i ≤ p) :
    Ensures Rejects (fun r ↦ Before p r.1 r.2.1 ∧ i < r.2.1 ∧ Zeroed d r.1 ∧ Ends r.1 i ∧
      Ends r.1 r.2.2) (parseValue d i) := by
  have hlen := h.lt_length
  unfold Message.parseValue
  refine ensures_require.bind fun _ hcolon ↦ ?_
  rw [beq_iff_eq] at hcolon
  have hlt : i < p := by
    refine lt_of_le_of_ne hi fun heq ↦ ?_
    rw [heq, h.cr hi.ge] at hcolon
    cases hcolon
  refine (ensures_putNul (P := (· = d.set i 0)) (by omega) rfl).bind fun d' hd' ↦ ?_
  subst hd'
  have hset := h.set (j := i + 1) (by omega) (by omega) (by omega) hi
  have hvalue := scan_le (q := fun b ↦ b == 32 || b == 9) hlt (hset.cr hlt) (by decide)
  have hstart := hset.move (Nat.le_add_right _ _) (hvalue.trans (by omega))
  refine (hstart.cutLine hvalue).bind fun r hr ↦ ?_
  obtain ⟨hbefore, hafter, hend, hzeroed, hends⟩ := hr
  refine ensures_require.bind fun _ _ ↦ ?_
  have hname : Ends (d.set i 0) i := ⟨i, Nat.le_refl i, List.getElem?_set_self (by omega)⟩
  refine ⟨hbefore.move (Nat.le_succ _) (Nat.succ_le_succ hend), ?_,
    (zeroed_set d i).trans hzeroed, hname.zeroed hzeroed, hends⟩
  show i < r.2 + 1
  omega

/-- A header line ends at the latest at the first line end of the blank line. -/
theorem Before.parseField (h : Before p d i) (hi : i ≤ p) :
    Ensures Rejects (fun r ↦ Before p r.1 r.2.1 ∧ i < r.2.1 ∧ Zeroed d r.1 ∧ Ends r.1 r.2.2.name ∧
      Ends r.1 r.2.2.value) (parseField d i) := by
  unfold Message.parseField
  refine (h.parseName hi).bind fun r hr ↦ ?_
  obtain ⟨hcolon, hstart, hle, hzeroed⟩ := hr
  refine (hcolon.parseValue hle).bind fun r' hr' ↦ ?_
  obtain ⟨hnext, hlt, hzeroed', ⟨k, hk, hnul⟩, hvalue⟩ := hr'
  exact ⟨hnext, hstart.trans_lt hlt, hzeroed.trans hzeroed', ⟨k, hstart.trans hk, hnul⟩, hvalue⟩

/-- The strings of the headers end. -/
def FieldsEnd (d : Bytes) (fields : List Hdrf) : Prop :=
  ∀ field ∈ fields, Ends d field.name ∧ Ends d field.value

/-- The loop over the headers comes to its end, and does so inside the buffer. The cursor moves on
with every header. -/
theorem Before.parseHeaders {fuel : ℕ} {fields : List Hdrf} (h : Before p d i)
    (hfuel : p + 2 - i < fuel) (hfields : FieldsEnd d fields) :
    Ensures Rejects (fun r ↦ Zeroed d r.1 ∧ r.2.1 ≤ d.length ∧ FieldsEnd r.1 r.2.2)
      (parseHeaders fuel d i fields) := by
  induction fuel generalizing d i fields with
  | zero => omega
  | succ fuel ih =>
    have hlen := h.lt_length
    have hle := h.le
    obtain ⟨hcr, hcr'⟩ := skipCr_bounds d i
    unfold Message.parseHeaders
    by_cases hend : skipCr d i = d.length
    · rw [if_pos hend]
      exact ⟨.refl d, hend.le, hfields⟩
    · obtain ⟨b, hb⟩ : ∃ b, d[skipCr d i]? = some b :=
        ⟨_, List.getElem?_eq_getElem (show skipCr d i < d.length by omega)⟩
      have hread : byteAt d (skipCr d i) = .ok b := by rw [byteAt, hb]
      rw [if_neg hend, hread, ok_bind]
      by_cases hlf : b = 10
      · rw [if_pos hlf]
        exact ⟨.refl d, (List.getElem?_eq_some_iff.mp hb).1, hfields⟩
      · rw [if_neg hlf]
        -- At the blank line the loop has ended.
        have hbefore : skipCr d i ≤ p := by
          refine h.skipCr_le fun hlf' ↦ hlf ?_
          rw [hb] at hlf'
          exact Option.some.inj hlf'
        refine ensures_require.bind fun _ _ ↦ ?_
        split_ifs with hfull
        · exact .inr rfl
        · refine ((h.move hcr (by omega)).parseField hbefore).bind fun r hr ↦ ?_
          obtain ⟨hnext, hlt, hzeroed, hname, hvalue⟩ := hr
          have hfields' : FieldsEnd r.1 (fields ++ [r.2.2]) := by
            intro field hfield
            rcases mem_append.mp hfield with hfield | hfield
            · obtain ⟨hname, hvalue⟩ := hfields field hfield
              exact ⟨hname.zeroed hzeroed, hvalue.zeroed hzeroed⟩
            · rw [mem_singleton.mp hfield]
              exact ⟨hname, hvalue⟩
          refine (ih hnext (by omega) hfields').mono fun r' hr' ↦ ?_
          obtain ⟨hzeroed', hret, hends⟩ := hr'
          exact ⟨hzeroed.trans hzeroed', hzeroed.length ▸ hret, hends⟩

/-! ### The first line -/

/-- The strings of the first line end. -/
def StartEnds (d : Bytes) (protoId : ℕ) (sl : StatusLine) : Prop :=
  Ends d protoId ∧ ∀ offset ∈ sl.offsets, Ends d offset

theorem Before.parseRequestLine (h : Before p d 0) :
    Ensures Rejects (fun r ↦ Before p r.1 r.2.1 ∧ r.2.1 ≤ p + 1 ∧ Zeroed d r.1 ∧
      StartEnds r.1 r.2.2.1 r.2.2.2) (parseRequestLine d) := by
  unfold Message.parseRequestLine
  refine (h.cutWord (Nat.zero_le p)).bind fun r hr ↦ ?_
  obtain ⟨huri, hle, hzeroed, hmethod⟩ := hr
  refine (huri.cutWord hle).bind fun r' hr' ↦ ?_
  obtain ⟨hproto, hle', hzeroed', huriEnds⟩ := hr'
  refine (hproto.cutLine hle').bind fun r'' hr'' ↦ ?_
  obtain ⟨hnext, -, hend, hzeroed'', hprotoEnds⟩ := hr''
  refine ⟨hnext, hend, (hzeroed.trans hzeroed').trans hzeroed'', hprotoEnds,
    fun offset hoffset ↦ ?_⟩
  rcases mem_cons.mp hoffset with rfl | hoffset
  · exact hmethod.zeroed (hzeroed'.trans hzeroed'')
  · rw [mem_singleton.mp hoffset]
    exact huriEnds.zeroed hzeroed''

/-- The code of a response, which has three digits and a space after them, is in front of the blank
line. -/
theorem Before.code_le (h : Before p d i) (hi : i ≤ p) {a b c e : UInt8} {back : Bytes}
    (hdrop : d.drop i = a :: b :: c :: e :: back)
    (hdigits : (isDigit a && isDigit b && isDigit c && e == 32) = true) : i + 4 ≤ p := by
  simp only [Bool.and_eq_true, beq_iff_eq] at hdigits
  obtain ⟨⟨⟨ha, hb⟩, hc⟩, he⟩ := hdigits
  have hget (k : ℕ) : d[i + k]? = (a :: b :: c :: e :: back)[k]? := by
    rw [← hdrop, List.getElem?_drop]
  have hdigit {x : UInt8} (hx : isDigit x = true) : x ≠ 13 := by
    rintro rfl
    cases hx
  have hne (k : ℕ) {x : UInt8} (hx : (a :: b :: c :: e :: back)[k]? = some x) (hcr : x ≠ 13) :
      i + k ≠ p := by
    intro heq
    have hp := hget k
    rw [heq, h.cr hi, hx] at hp
    exact hcr (Option.some.inj hp).symm
  have h0 := hne 0 rfl (hdigit ha)
  have h1 := hne 1 rfl (hdigit hb)
  have h2 := hne 2 rfl (hdigit hc)
  have h3 := hne 3 rfl (by rw [he]; decide)
  omega

theorem Before.parseResponseLine (h : Before p d 0) :
    Ensures Rejects (fun r ↦ Before p r.1 r.2.1 ∧ r.2.1 ≤ p + 1 ∧ Zeroed d r.1 ∧
      StartEnds r.1 r.2.2.1 r.2.2.2) (parseResponseLine d) := by
  have hlen := h.lt_length
  have hdelim := h.delim_le (Nat.zero_le p) 32 0
  rw [Nat.zero_add, drop_zero] at hdelim
  have hread : byteAt d (delim d 32 0) = .ok (d.get ⟨delim d 32 0, by omega⟩) := by
    rw [byteAt, List.getElem?_eq_getElem]
    rfl
  unfold Message.parseResponseLine
  rw [hread, ok_bind]
  refine (h.cutWord (Nat.zero_le p)).bind fun r hr ↦ ?_
  obtain ⟨hcode, hle, hzeroed, hproto⟩ := hr
  dsimp only
  split
  next a b c e back hdrop =>
    refine ensures_require.bind fun _ hdigits ↦ ?_
    have hle' := hcode.code_le hle hdrop hdigits
    have hspaces := hcode.move (j := r.2 + 4) (by omega) (by omega)
    have hreason := hspaces.skipSpaces_le hle'
    refine ((hspaces.move (le_skipSpaces _ _) (by omega)).cutLine hreason).bind fun r' hr' ↦ ?_
    obtain ⟨hnext, -, hend, hzeroed', hreasonEnds⟩ := hr'
    refine ⟨hnext, hend, hzeroed.trans hzeroed', hproto.zeroed hzeroed', fun offset hoffset ↦ ?_⟩
    rw [mem_singleton.mp hoffset]
    exact hreasonEnds
  next => exact .inl rfl

theorem Before.parseStartLine (h : Before p d 0) :
    Ensures Rejects (fun r ↦ Before p r.1 r.2.1 ∧ Zeroed d r.1 ∧ StartEnds r.1 r.2.2.1 r.2.2.2)
      (parseStartLine d) := by
  have hend (r : Bytes × ℕ × ℕ × StatusLine) (hr : Before p r.1 r.2.1 ∧ r.2.1 ≤ p + 1 ∧
      Zeroed d r.1 ∧ StartEnds r.1 r.2.2.1 r.2.2.2) :
      Ensures Rejects (fun r ↦ Before p r.1 r.2.1 ∧ Zeroed d r.1 ∧ StartEnds r.1 r.2.2.1 r.2.2.2)
        (Message.parseLineEnd r.1 r.2.1 >>= fun i ↦ .ok (r.1, i, r.2.2.1, r.2.2.2)) := by
    obtain ⟨hcut, hle, hzeroed, hends⟩ := hr
    exact (hcut.parseLineEnd hle).bind fun j hj ↦ ⟨hj, hzeroed, hends⟩
  unfold Message.parseStartLine
  refine ensures_require.bind fun _ _ ↦ ensures_require.bind fun _ _ ↦ ?_
  dsimp only
  split_ifs
  · exact h.parseResponseLine.bind hend
  · exact h.parseRequestLine.bind hend

/-! ### Messages -/

/-- The bytes of a message with a blank line in it. -/
theorem exists_before (hblank : ascii "\r\n\r\n" <:+: d) : ∃ p, Before p d 0 := by
  obtain ⟨front, back, rfl⟩ := hblank
  have hget (k : ℕ) (hk : k < 4) :
      (front ++ ascii "\r\n\r\n" ++ back)[front.length + k]? = (ascii "\r\n\r\n")[k]? := by
    rw [append_assoc, List.getElem?_append_right (Nat.le_add_right _ _),
      Nat.add_sub_cancel_left, List.getElem?_append_left hk]
  exact ⟨front.length, Nat.zero_le _, fun _ ↦ hget 0 (by decide), hget 1 (by decide),
    hget 2 (by decide), hget 3 (by decide)⟩

/-- The parser comes to its end on a message with a blank line in it. -/
theorem parsePmsg_ensures (hblank : ascii "\r\n\r\n" <:+: d) :
    Ensures Rejects (fun r ↦ r.1.msg.length = d.length ∧ r.2 ≤ d.length ∧
      ∀ offset ∈ r.1.offsets, Ends r.1.msg offset) (parsePmsg d) := by
  obtain ⟨p, hstart⟩ := exists_before hblank
  unfold parsePmsg
  refine hstart.parseStartLine.bind fun r hr ↦ ?_
  obtain ⟨hnext, hzeroed, hproto, hline⟩ := hr
  have hlen := hnext.lt_length
  refine (hnext.parseHeaders (by omega) fun _ hfield ↦ absurd hfield not_mem_nil).bind
    fun r' hr' ↦ ?_
  obtain ⟨hzeroed', hret, hfields⟩ := hr'
  refine ⟨hzeroed'.length.trans hzeroed.length, hzeroed.length ▸ hret, fun offset hoffset ↦ ?_⟩
  simp only [Pmsg.offsets, mem_append, mem_flatMap] at hoffset
  rcases hoffset with (hoffset | hoffset) | ⟨field, hfield, hoffset⟩
  · cases Option.mem_toList.mp hoffset
    exact hproto.zeroed hzeroed'
  · exact (hline offset hoffset).zeroed hzeroed'
  · obtain ⟨hname, hvalue⟩ := hfields field hfield
    rcases mem_cons.mp hoffset with rfl | hoffset
    · exact hname
    · rw [mem_singleton.mp hoffset]
      exact hvalue

/-- A message with a blank line in it is accepted, and then every string that a pointer was stored
for ends inside the buffer, or it is rejected, unless it has too many headers for the table. In all
cases the parser comes to its end and does not read or write outside the buffer. -/
theorem parsePmsg_inside {d : Bytes} (hblank : ascii "\r\n\r\n" <:+: d) :
    (∃ m ret, parsePmsg d = .ok (m, ret) ∧ m.msg.length = d.length ∧ ret ≤ d.length ∧
      ∀ offset ∈ m.offsets, Ends m.msg offset) ∨
    parsePmsg d = .error .malformed ∨
    parsePmsg d = .error .fieldOutside ∧ TooManyHeaders d := by
  have hensures := parsePmsg_ensures hblank
  cases hparse : parsePmsg d with
  | ok r =>
    rw [hparse] at hensures
    exact .inl ⟨r.1, r.2, rfl, hensures⟩
  | error stop =>
    rw [hparse] at hensures
    rcases hensures with rfl | rfl
    · exact .inr (.inl rfl)
    · exact .inr (.inr ⟨rfl, (parsePmsg_eq_fieldOutside_iff d).mp hparse⟩)

/-- A request with one header, and some bytes after it. -/
def optionsRequest : Bytes := ascii "OPTIONS * RTSP/1.0\r\nCSeq: 1\r\n\r\n$\x00"

theorem optionsRequest_inside : ascii "\r\n\r\n" <:+: optionsRequest ∧
    ∃ m ret, parsePmsg optionsRequest = .ok (m, ret) ∧ ∀ offset ∈ m.offsets, Ends m.msg offset := by
  have hblank : ascii "\r\n\r\n" <:+: optionsRequest :=
    ⟨ascii "OPTIONS * RTSP/1.0\r\nCSeq: 1", ascii "$\x00", by decide⟩
  have haccepted : (parsePmsg optionsRequest).isOk = true := by decide +kernel
  refine ⟨hblank, ?_⟩
  rcases parsePmsg_inside hblank with ⟨m, ret, hparse, -, -, hends⟩ | hrejected | ⟨houtside, -⟩
  · exact ⟨m, ret, hparse, hends⟩
  · rw [hrejected] at haccepted
    cases haccepted
  · rw [houtside] at haccepted
    cases haccepted

/-- The request has no space after the URI. When this is found out, the method has been cut off and
the pointer to the URI has been stored, but no NUL comes after the URI. -/
theorem rejected_uri_not_ended :
    let d := ascii "GET x\r\n\r\n"
    ∃ d' uri, ascii "\r\n\r\n" <:+: d ∧ cutWord d 0 = .ok (d', uri) ∧ uri < d'.length ∧
      cutWord d' uri = .error .malformed ∧ parsePmsg d = .error .malformed ∧ ¬ Ends d' uri := by
  refine ⟨ascii "GET\x00x\r\n\r\n", 4, ⟨ascii "GET x", [], by decide⟩, by decide, by decide,
    by decide, by decide +kernel, ?_⟩
  have hplain : ∀ k < 9, 4 ≤ k → (ascii "GET\x00x\r\n\r\n")[k]? ≠ some 0 := by decide
  rintro ⟨k, hk, hnul⟩
  exact hplain k (List.getElem?_eq_some_iff.mp hnul).1 hk hnul

end WisCam.Message
