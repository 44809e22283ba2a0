import Mathlib.Data.List.Basic
import Mathlib.Data.List.Induction
import WisCam.Connection.Framing

/-!
# Base64 on a tunnel

The client's side of a tunnel sends Base64, and `do_read` decodes every piece that `read()` returns
where it stands in the request buffer; the characters of a group that is not complete are kept
behind the decoded bytes and decoded again with the next piece. `unbase64InPlace` is `unbase64` on
the buffer, with its reads and its stores.

`Decoder` is what that amounts to: a machine that is fed one character after the other. Feeding it
pieces is feeding it their concatenation, so where the pieces end does not matter
(`keeps_tunnelRun`), and on text in the padded encoding (`encode64`) it gives back the bytes that
were encoded (`tunnel_decodes_messages`). The rounds are those of `readStep`, with the limit of
`read()` and all that ends them: when the connection is dropped, the rest of the text is not read.
-/

set_option autoImplicit false

namespace WisCam.Connection

open Foundations List

/-! ### Decoding in place -/

/-- The stores of `bytes` into a buffer from an index on. -/
def storeAt (d : Bytes) (dest : ℕ) (bytes : Bytes) : Bytes :=
  d.take dest ++ bytes ++ d.drop (dest + bytes.length)

/-- The three bytes that `unbase64` stores for a group, also where fewer of them count. -/
def groupBytes (a b c d : UInt8) : Bytes :=
  let value := fun e : UInt8 ↦ UInt8.ofNat (base64 e).toNat
  [((value a <<< 2) &&& (0xFC : UInt8)) ||| (value b >>> 4),
    ((value b <<< 4) &&& (0xF0 : UInt8)) ||| (value c >>> 2),
    ((value c <<< 6) &&& (0xC0 : UInt8)) ||| value d]

/-- How far a group moves `dest`. -/
def groupLength (c d : UInt8) : ℕ := if d = 61 then if c = 61 then 1 else 2 else 3

/-- The loops of `unbase64`, with the number of characters that are left, the buffer, `src`, `dest`
and the characters in `enc`: the buffer in the end, the length that is returned and `*remain`. -/
def unbase64Loop : ℕ → Bytes → ℕ → ℕ → Bytes → Bytes × ℕ × ℕ
  | 0, d, _, dest, enc => (storeAt d dest enc, dest + enc.length, enc.length)
  | left + 1, d, src, dest, enc =>
    match d[src]? with
    | none => (d, 0, 0)
    | some b =>
      if base64 b < 0 then unbase64Loop left d (src + 1) dest enc
      else
        match enc with
        | [e0, e1, e2] =>
          unbase64Loop left (storeAt d dest (groupBytes e0 e1 e2 b)) (src + 1)
            (dest + groupLength e2 b) []
        | _ => unbase64Loop left d (src + 1) dest (enc ++ [b])

/-- `unbase64` on the bytes of a buffer. -/
def unbase64InPlace (d : Bytes) : Bytes × ℕ × ℕ := unbase64Loop d.length d 0 0 []

/-- What `do_read` does with the bytes that `read()` returned, in the buffer itself. -/
def Reader.receiveInPlace (r : Reader) (data : Bytes) : Reader :=
  if 0 ≤ r.base64Count then
    let decoded := r.reqBuf.length - r.base64Count.toNat
    let (d, len, remain) := unbase64InPlace (r.reqBuf.drop decoded ++ data)
    { r with reqBuf := r.reqBuf.take decoded ++ d.take len, base64Count := remain }
  else { r with reqBuf := r.reqBuf ++ data }

variable {dest : ℕ}

section Equations

variable {b : UInt8} {d enc : Bytes}

theorem unbase64_skip (hskip : base64 b < 0) : unbase64 enc (b :: d) = unbase64 enc d := by
  conv_lhs => unfold unbase64
  exact if_pos hskip

theorem unbase64_group (hkeep : ¬ base64 b < 0) (e0 e1 e2 : UInt8) :
    unbase64 [e0, e1, e2] (b :: d) =
      (decodeGroup e0 e1 e2 b ++ (unbase64 [] d).1, (unbase64 [] d).2) := by
  rw [unbase64, if_neg hkeep]

theorem unbase64_collect (hkeep : ¬ base64 b < 0) (hshort : enc.length < 3) :
    unbase64 enc (b :: d) = unbase64 (enc ++ [b]) d := by
  rw [unbase64, if_neg hkeep]
  rintro e0 e1 e2 rfl
  exact absurd hshort (Nat.lt_irrefl _)

theorem unbase64Loop_collect {left src : ℕ} (hget : d[src]? = some b) (hkeep : ¬ base64 b < 0)
    (hshort : enc.length < 3) :
    unbase64Loop (left + 1) d src dest enc = unbase64Loop left d (src + 1) dest (enc ++ [b]) := by
  rw [unbase64Loop, hget]
  dsimp only
  rw [if_neg hkeep]
  split
  · exact absurd hshort (Nat.lt_irrefl _)
  · rfl

/-- The characters that have been collected are fewer than three, or a fourth one completes the
group. -/
theorem length_lt_or_eq (henc : enc.length < 4) :
    enc.length < 3 ∨ ∃ e0 e1 e2, enc = [e0, e1, e2] := by
  rcases Nat.lt_or_ge enc.length 3 with hshort | hlong
  · exact .inl hshort
  · exact .inr (length_eq_three.mp (Nat.le_antisymm (Nat.le_of_lt_succ henc) hlong))

end Equations

theorem decodeGroup_eq (a b c d : UInt8) :
    decodeGroup a b c d = (groupBytes a b c d).take (groupLength c d) := by
  unfold decodeGroup groupBytes groupLength
  split_ifs <;> rfl

theorem groupLength_le (c d : UInt8) : groupLength c d ≤ 3 := by
  unfold groupLength
  split_ifs <;> omega

theorem take_storeAt {d bytes : Bytes} {len : ℕ} (hdest : dest ≤ d.length)
    (hlen : len ≤ bytes.length) :
    (storeAt d dest bytes).take (dest + len) = d.take dest ++ bytes.take len := by
  have hfront : (d.take dest).length = dest := length_take_of_le hdest
  rw [storeAt, append_assoc, take_append, hfront, Nat.add_sub_cancel_left,
    take_of_length_le (by omega), take_append_of_le_length hlen]

theorem drop_storeAt {d bytes : Bytes} {src : ℕ} (hsrc : dest + bytes.length ≤ src)
    (hlength : src ≤ d.length) : (storeAt d dest bytes).drop src = d.drop src := by
  have hfront : (d.take dest ++ bytes).length = dest + bytes.length := by
    rw [length_append, length_take_of_le (by omega)]
  rw [storeAt, List.drop_append, drop_eq_nil_of_le (by omega), nil_append, hfront, drop_drop]
  congr 1
  omega

theorem length_storeAt {d bytes : Bytes} (hfits : dest + bytes.length ≤ d.length) :
    (storeAt d dest bytes).length = d.length := by
  rw [storeAt, length_append, length_append, length_drop, length_take_of_le (by omega)]
  omega

/-- Decoding in place does not run over the characters that are still to be read: every byte that
is stored, and every character in `enc`, comes from a character that has been. -/
theorem unbase64Loop_spec {left src dest : ℕ} {d enc : Bytes} (hleft : src + left = d.length)
    (hbehind : dest + enc.length ≤ src) (henc : enc.length < 4) :
    (unbase64Loop left d src dest enc).1.take (unbase64Loop left d src dest enc).2.1 =
        d.take dest ++ (unbase64 enc (d.drop src)).1 ∧
      (unbase64Loop left d src dest enc).2.1 = dest + (unbase64 enc (d.drop src)).1.length ∧
      (unbase64Loop left d src dest enc).2.2 = (unbase64 enc (d.drop src)).2 := by
  induction left generalizing d src dest enc with
  | zero =>
    rw [drop_of_length_le (by omega), unbase64Loop, unbase64]
    refine ⟨?_, rfl, rfl⟩
    rw [take_storeAt (by omega) (Nat.le_refl _), take_length]
  | succ left ih =>
    have hget : d[src]? = some d[src] := List.getElem?_eq_getElem (by omega)
    rw [drop_eq_getElem_cons (by omega)]
    by_cases hskip : base64 d[src] < 0
    · rw [unbase64_skip hskip, unbase64Loop, hget]
      dsimp only
      rw [if_pos hskip]
      exact ih (by omega) (by omega) henc
    rcases length_lt_or_eq henc with hshort | ⟨e0, e1, e2, rfl⟩
    · rw [unbase64_collect hskip hshort, unbase64Loop_collect hget hskip hshort]
      refine ih (by omega) ?_ ?_ <;> rw [length_append, length_singleton] <;> omega
    · have hstored : (groupBytes e0 e1 e2 d[src]).length = 3 := rfl
      have hgroup := groupLength_le e2 d[src]
      have hroom : dest + 3 ≤ src := hbehind
      rw [unbase64_group hskip, unbase64Loop, hget]
      dsimp only
      rw [if_neg hskip]
      obtain ⟨htext, hlen, hremain⟩ := @ih (src + 1) (dest + groupLength e2 d[src])
        (storeAt d dest (groupBytes e0 e1 e2 d[src])) []
        (by rw [length_storeAt (by omega)]; omega) (by rw [length_nil]; omega)
        (Nat.zero_lt_succ _)
      rw [drop_storeAt (by omega) (by omega)] at htext hlen hremain
      refine ⟨?_, ?_, hremain⟩
      · rw [htext, take_storeAt (by omega) (by omega), decodeGroup_eq, append_assoc]
      · rw [hlen, length_append, decodeGroup_eq, length_take_of_le (by omega)]
        omega

/-- `unbase64` in place leaves the decoded bytes and the kept characters at the start of the
buffer. -/
theorem unbase64InPlace_spec (d : Bytes) :
    (unbase64InPlace d).1.take (unbase64InPlace d).2.1 = (unbase64 [] d).1 ∧
      (unbase64InPlace d).2.1 = (unbase64 [] d).1.length ∧
      (unbase64InPlace d).2.2 = (unbase64 [] d).2 := by
  have hspec := @unbase64Loop_spec d.length 0 0 d [] (Nat.zero_add _) (Nat.zero_le _)
    (Nat.zero_lt_succ _)
  rw [take_zero, nil_append, drop_zero, Nat.zero_add] at hspec
  exact hspec

theorem receiveInPlace_eq (r : Reader) (data : Bytes) : r.receiveInPlace data = r.receive data := by
  unfold Reader.receiveInPlace Reader.receive
  split_ifs
  · dsimp only
    obtain ⟨htext, -, hremain⟩ := unbase64InPlace_spec
      (r.reqBuf.drop (r.reqBuf.length - r.base64Count.toNat) ++ data)
    rw [htext, hremain]
  · rfl

/-! ### The decoder -/

/-- A decoder: the bytes it has produced and the characters of a group that is not complete. -/
structure Decoder where
  decoded : Bytes
  group : Bytes
  deriving DecidableEq, Repr

/-- A character that is not in the alphabet is skipped, and every fourth one completes a group. -/
def Decoder.feed (s : Decoder) (b : UInt8) : Decoder :=
  if base64 b < 0 then s
  else
    match s.group with
    | [e0, e1, e2] => ⟨s.decoded ++ decodeGroup e0 e1 e2 b, []⟩
    | group => ⟨s.decoded, group ++ [b]⟩

def Decoder.feedAll (s : Decoder) (text : Bytes) : Decoder := text.foldl Decoder.feed s

/-- The characters that a decoder holds are in the alphabet, and fewer than four. -/
def Decoder.Wf (s : Decoder) : Prop := s.group.length < 4 ∧ ∀ b ∈ s.group, ¬ base64 b < 0

namespace Decoder

variable {s : Decoder} {b : UInt8}

theorem feed_skip (hskip : base64 b < 0) : s.feed b = s := if_pos hskip

theorem feed_group {decoded : Bytes} {e0 e1 e2 : UInt8} (hkeep : ¬ base64 b < 0) :
    feed ⟨decoded, [e0, e1, e2]⟩ b = ⟨decoded ++ decodeGroup e0 e1 e2 b, []⟩ := if_neg hkeep

theorem feed_collect (hkeep : ¬ base64 b < 0) (hshort : s.group.length < 3) :
    s.feed b = ⟨s.decoded, s.group ++ [b]⟩ := by
  rw [feed, if_neg hkeep]
  split
  · rename_i hgroup
    rw [hgroup] at hshort
    exact absurd hshort (Nat.lt_irrefl _)
  · rfl

theorem feedAll_append (s : Decoder) (front back : Bytes) :
    s.feedAll (front ++ back) = (s.feedAll front).feedAll back :=
  foldl_append ..

theorem wf_feed (hwf : s.Wf) (b : UInt8) : (s.feed b).Wf := by
  obtain ⟨hlength, hchars⟩ := hwf
  by_cases hskip : base64 b < 0
  · rw [feed_skip hskip]
    exact ⟨hlength, hchars⟩
  rcases length_lt_or_eq hlength with hshort | ⟨e0, e1, e2, hgroup⟩
  · rw [feed_collect hskip hshort]
    refine ⟨?_, fun e he ↦ ?_⟩
    · rw [length_append, length_singleton]
      omega
    · rcases mem_append.mp he with he | he
      · exact hchars e he
      · rw [mem_singleton.mp he]
        exact hskip
  · obtain ⟨decoded, group⟩ := s
    obtain rfl : group = [e0, e1, e2] := hgroup
    rw [feed_group hskip]
    exact ⟨Nat.zero_lt_succ _, fun _ h ↦ absurd h not_mem_nil⟩

theorem wf_feedAll (hwf : s.Wf) (text : Bytes) : (s.feedAll text).Wf := by
  induction text generalizing s with
  | nil => exact hwf
  | cons b text ih => exact ih (wf_feed hwf b)

/-- What has been decoded stays. -/
theorem feedAll_decoded (decoded group text : Bytes) (hgroup : group.length < 4) :
    feedAll ⟨decoded, group⟩ text =
      ⟨decoded ++ (feedAll ⟨[], group⟩ text).decoded, (feedAll ⟨[], group⟩ text).group⟩ := by
  induction text generalizing decoded group with
  | nil => rw [feedAll, foldl_nil, feedAll, foldl_nil, append_nil]
  | cons b text ih =>
    change feedAll (feed ⟨decoded, group⟩ b) text =
      ⟨decoded ++ (feedAll (feed ⟨[], group⟩ b) text).decoded,
        (feedAll (feed ⟨[], group⟩ b) text).group⟩
    by_cases hskip : base64 b < 0
    · rw [feed_skip hskip, feed_skip hskip]
      exact ih decoded group hgroup
    rcases length_lt_or_eq hgroup with hshort | ⟨e0, e1, e2, rfl⟩
    · rw [feed_collect hskip hshort, feed_collect hskip hshort]
      exact ih decoded (group ++ [b]) (by rw [length_append, length_singleton]; omega)
    · rw [feed_group hskip, feed_group hskip, nil_append, ih _ [] (Nat.zero_lt_succ _),
        ih (decodeGroup e0 e1 e2 b) [] (Nat.zero_lt_succ _), append_assoc]

/-- The characters of an unfinished group are collected again. -/
theorem feedAll_group {group : Bytes} (hlength : group.length < 4)
    (hchars : ∀ e ∈ group, ¬ base64 e < 0) : feedAll ⟨[], []⟩ group = ⟨[], group⟩ := by
  induction group using List.reverseRecOn with
  | nil => rfl
  | append_singleton group b ih =>
    rw [length_append, length_singleton] at hlength
    rw [feedAll_append, ih (by omega) fun e he ↦ hchars e (mem_append_left _ he)]
    have hkeep := hchars b (mem_append_right _ (mem_singleton_self b))
    exact feed_collect hkeep (Nat.lt_of_succ_lt_succ hlength)

end Decoder

/-- `unbase64` is the decoder: it leaves the decoded bytes, and behind them the characters of an
unfinished group. -/
theorem unbase64_eq {enc : Bytes} (henc : enc.length < 4) (text : Bytes) :
    unbase64 enc text = ((Decoder.feedAll ⟨[], enc⟩ text).decoded ++
      (Decoder.feedAll ⟨[], enc⟩ text).group, (Decoder.feedAll ⟨[], enc⟩ text).group.length) := by
  induction text generalizing enc with
  | nil => rfl
  | cons b text ih =>
    change _ = ((Decoder.feedAll (Decoder.feed ⟨[], enc⟩ b) text).decoded ++
      (Decoder.feedAll (Decoder.feed ⟨[], enc⟩ b) text).group,
      (Decoder.feedAll (Decoder.feed ⟨[], enc⟩ b) text).group.length)
    by_cases hskip : base64 b < 0
    · rw [unbase64_skip hskip, Decoder.feed_skip hskip]
      exact ih henc
    rcases length_lt_or_eq henc with hshort | ⟨e0, e1, e2, rfl⟩
    · rw [unbase64_collect hskip hshort, Decoder.feed_collect hskip hshort]
      exact ih (by rw [length_append, length_singleton]; omega)
    · rw [unbase64_group hskip, Decoder.feed_group hskip, @ih [] (Nat.zero_lt_succ _), nil_append,
        Decoder.feedAll_decoded (decodeGroup e0 e1 e2 b) [] _ (Nat.zero_lt_succ _), append_assoc]

/-! ### Rounds of reading -/

/-- The bytes that `unbase64` produces in a round: those between the ones that stood in the buffer
before and the characters that are kept. -/
def Reader.produces (r : Reader) (data : Bytes) : Bytes :=
  let after := r.receiveInPlace data
  (after.reqBuf.take (after.reqBuf.length - after.base64Count.toNat)).drop
    (r.reqBuf.length - r.base64Count.toNat)

/-- A tunnel that is being read, with the text that has been read and all the bytes that `unbase64`
has produced. -/
structure Tunnel where
  reading : Reading
  text : Bytes
  produced : Bytes
  deriving DecidableEq, Repr

variable (callees : Callees)

/-- One round of `do_read`. -/
def tunnelStep (s : Tunnel) (data : Bytes) : Option Tunnel :=
  (readStep callees s.reading data).map fun reading ↦
    if s.reading.ended then s
    else ⟨reading, s.text ++ data, s.produced ++ s.reading.reader.produces data⟩

/-- The rounds on a connection that has become a tunnel, whatever its buffer holds. -/
def tunnelRun (proto : Proto) (reqBuf : Bytes) (pieces : List Bytes) : Option Tunnel :=
  pieces.foldlM (tunnelStep callees) ⟨⟨⟨proto, 0, reqBuf⟩, false, []⟩, [], []⟩

/-- The reader keeps the characters of the decoder's group behind the bytes that it has decoded. -/
def Reader.Holds (r : Reader) (group : Bytes) : Prop :=
  r.base64Count = group.length ∧ ∃ front, r.reqBuf = front ++ group

/-- After these pieces the tunnel has produced what the decoder has that was fed the text, and keeps
the same characters; and the text is all of the pieces unless the reading has ended. -/
structure Keeps (pieces : List Bytes) (s : Tunnel) (d : Decoder) : Prop where
  decoder : d = Decoder.feedAll ⟨[], []⟩ s.text
  whole : ∃ later, pieces.flatten = s.text ++ later ∧ (s.reading.ended = false → later = [])
  holds : s.reading.ended = false → s.reading.reader.Holds d.group
  produced : s.produced = d.decoded

theorem receiveInPlace_of_holds {r : Reader} {d : Decoder} (hwf : d.Wf) (hholds : r.Holds d.group)
    (data : Bytes) :
    (r.receiveInPlace data).Holds (d.feedAll data).group ∧
      d.decoded ++ r.produces data = (d.feedAll data).decoded := by
  obtain ⟨hcount, front, hkept⟩ := hholds
  obtain ⟨decoded, group⟩ := d
  obtain ⟨hgroup, hchars⟩ : group.length < 4 ∧ ∀ b ∈ group, ¬ base64 b < 0 := hwf
  set e := Decoder.feedAll ⟨[], group⟩ data with he
  have hbefore : r.reqBuf.length - r.base64Count.toNat = front.length := by
    rw [hkept, hcount, length_append, Int.toNat_natCast]
    exact Nat.add_sub_cancel ..
  have hdecode : unbase64 [] (group ++ data) = (e.decoded ++ e.group, e.group.length) := by
    rw [@unbase64_eq [] (Nat.zero_lt_succ _), Decoder.feedAll_append,
      Decoder.feedAll_group hgroup hchars]
  have hreceive : r.receiveInPlace data =
      ⟨r.proto, e.group.length, front ++ (e.decoded ++ e.group)⟩ := by
    rw [receiveInPlace_eq, Reader.receive, if_pos (by rw [hcount]; exact Int.natCast_nonneg _),
      hbefore, hkept]
    dsimp only
    rw [drop_left, take_left, hdecode]
  have hlength : (front ++ (e.decoded ++ e.group)).length - e.group.length =
      (front ++ e.decoded).length := by
    simp only [length_append]
    omega
  rw [Decoder.feedAll_decoded decoded group data hgroup, ← he, Reader.produces, hreceive, hbefore]
  refine ⟨⟨rfl, front ++ e.decoded, (append_assoc ..).symm⟩, ?_⟩
  dsimp only
  rw [Int.toNat_natCast, hlength, ← append_assoc, take_left, drop_left]

variable {callees} {s s' : Tunnel} {data : Bytes} {pieces : List Bytes}

/-- Looking at the buffer leaves the characters that are kept, and there are none when the buffer is
given up. -/
theorem holds_readStep {s s' : Reading} {group : Bytes}
    (hstep : readStep callees s data = some s') (hopen : s.ended = false)
    (hholds : (s.reader.receiveInPlace data).Holds group) (hopen' : s'.ended = false) :
    s'.reader.Holds group := by
  rw [receiveInPlace_eq] at hholds
  unfold readStep at hstep
  rw [hopen] at hstep
  dsimp only at hstep
  split_ifs at hstep with _ hended _ hfull hpending
  · exact hended.elim
  · obtain rfl := Option.some.inj hstep
    exact absurd hopen' nofun
  · obtain rfl := Option.some.inj hstep
    exact hholds
  · obtain rfl := Option.some.inj hstep
    obtain ⟨hcount, front, hkept⟩ := hholds
    have hnone : group = [] := length_eq_zero_iff.mp (by omega)
    cases hsettle : (s.reader.receive data).settle with
    | mk r' found =>
      have hcount' := (of_settle hsettle).2.1.trans hcount
      rw [hsettle] at hopen'
      rcases @dispatch_initialPart callees s _ _ _ hsettle with
        hend | ⟨hwait, hsame⟩ | ⟨unit, hunit, -⟩
      · rw [hend] at hopen'
        exact absurd hopen' nofun
      · rw [hwait]
        exact ⟨hcount', front, hsame.trans hkept⟩
      · rw [hunit]
        exact ⟨hcount', [], hnone.symm⟩

theorem keeps_tunnelStep {d : Decoder} (hwf : d.Wf) (hkeeps : Keeps pieces s d)
    (hstep : tunnelStep callees s data = some s') : ∃ d', Keeps (pieces ++ [data]) s' d' := by
  obtain ⟨hdecoder, ⟨later, hwhole, hall⟩, hholds, hproduced⟩ := hkeeps
  obtain ⟨reading, hreading, rfl⟩ := Option.map_eq_some_iff.mp hstep
  have hpieces : (pieces ++ [data]).flatten = s.text ++ (later ++ data) := by
    rw [flatten_append, flatten_singleton, hwhole, append_assoc]
  split_ifs with hended
  · exact ⟨d, hdecoder, ⟨_, hpieces, fun h ↦ absurd (hended.symm.trans h) nofun⟩, hholds, hproduced⟩
  · have hopen : s.reading.ended = false := Bool.not_eq_true _ ▸ hended
    obtain ⟨hheld, hmore⟩ := receiveInPlace_of_holds hwf (hholds hopen) data
    rw [hall hopen, nil_append] at hpieces
    refine ⟨d.feedAll data, ?_, ⟨[], by rw [append_nil]; exact hpieces, fun _ ↦ rfl⟩,
      holds_readStep hreading hopen hheld, by rw [hproduced]; exact hmore⟩
    rw [hdecoder, ← Decoder.feedAll_append]

/-- Over any rounds, the tunnel does what the decoder does that is fed all of the text at once. -/
theorem keeps_tunnelRun {proto : Proto} {reqBuf : Bytes}
    (hrun : tunnelRun callees proto reqBuf pieces = some s) :
    Keeps pieces s (Decoder.feedAll ⟨[], []⟩ s.text) := by
  have hempty : Decoder.Wf ⟨[], []⟩ := ⟨Nat.zero_lt_succ _, fun _ h ↦ absurd h not_mem_nil⟩
  induction pieces using List.reverseRecOn generalizing s with
  | nil =>
    obtain rfl := Option.some.inj hrun
    exact ⟨rfl, ⟨[], rfl, fun _ ↦ rfl⟩, fun _ ↦ ⟨rfl, reqBuf, (append_nil _).symm⟩, rfl⟩
  | append_singleton pieces piece ih =>
    rw [tunnelRun, foldlM_append, Option.bind_eq_bind, Option.bind_eq_some_iff] at hrun
    obtain ⟨s₀, hbefore, hstep⟩ := hrun
    rw [foldlM_cons, Option.bind_eq_bind, Option.bind_eq_some_iff] at hstep
    obtain ⟨s₁, hstep, hend⟩ := hstep
    obtain rfl := Option.some.inj hend
    obtain ⟨d, hkeeps⟩ := keeps_tunnelStep (Decoder.wf_feedAll hempty _) (ih hbefore) hstep
    rw [← hkeeps.decoder]
    exact hkeeps

/-! ### Encoding -/

/-- The character for a value below 64. -/
def alphabet64 (value : ℕ) : UInt8 :=
  UInt8.ofNat (if value < 26 then 65 + value else if value < 52 then 71 + value
    else if value < 62 then value - 4 else if value = 62 then 43 else 47)

/-- Padded Base64: three bytes are four characters, and the last ones are padded with `=`. -/
def encode64 : Bytes → Bytes
  | a :: b :: c :: rest =>
    alphabet64 (a.toNat / 4) :: alphabet64 (a.toNat % 4 * 16 + b.toNat / 16) ::
      alphabet64 (b.toNat % 16 * 4 + c.toNat / 64) :: alphabet64 (c.toNat % 64) :: encode64 rest
  | [a, b] =>
    [alphabet64 (a.toNat / 4), alphabet64 (a.toNat % 4 * 16 + b.toNat / 16),
      alphabet64 (b.toNat % 16 * 4), 61]
  | [a] => [alphabet64 (a.toNat / 4), alphabet64 (a.toNat % 4 * 16), 61, 61]
  | [] => []

def inAlphabet (b : UInt8) : Bool := 0 ≤ base64 b

theorem base64_alphabet64 : ∀ value < 64,
    base64 (alphabet64 value) = value ∧ alphabet64 value ≠ 61 := by
  decide +kernel

theorem base64_pad : base64 61 = (0 : ℕ) := by decide

/-- The parts of a byte, shifted to their places. -/
theorem shifted_parts : ∀ value < 64,
    (UInt8.ofNat value <<< 2) &&& (0xFC : UInt8) = UInt8.ofNat (value * 4) ∧
      UInt8.ofNat value >>> 4 = UInt8.ofNat (value / 16) ∧
      (UInt8.ofNat value <<< 4) &&& (0xF0 : UInt8) = UInt8.ofNat (value % 16 * 16) ∧
      UInt8.ofNat value >>> 2 = UInt8.ofNat (value / 4) ∧
      (UInt8.ofNat value <<< 6) &&& (0xC0 : UInt8) = UInt8.ofNat (value % 4 * 64) := by
  decide +kernel

/-- The parts of a byte do not overlap. -/
theorem joined_parts :
    (∀ high < 64, ∀ low < 4,
      UInt8.ofNat (high * 4) ||| UInt8.ofNat low = UInt8.ofNat (high * 4 + low)) ∧
    (∀ high < 16, ∀ low < 16,
      UInt8.ofNat (high * 16) ||| UInt8.ofNat low = UInt8.ofNat (high * 16 + low)) ∧
    ∀ high < 4, ∀ low < 64,
      UInt8.ofNat (high * 64) ||| UInt8.ofNat low = UInt8.ofNat (high * 64 + low) := by
  decide +kernel

theorem groupBytes_eq {a b c d : UInt8} {w x y z : ℕ} (ha : base64 a = w) (hb : base64 b = x)
    (hc : base64 c = y) (hd : base64 d = z) (hw : w < 64) (hx : x < 64) (hy : y < 64)
    (hz : z < 64) :
    groupBytes a b c d = [UInt8.ofNat (w * 4 + x / 16), UInt8.ofNat (x % 16 * 16 + y / 4),
      UInt8.ofNat (y % 4 * 64 + z)] := by
  obtain ⟨hfirst, hsecond, hthird⟩ := joined_parts
  obtain ⟨-, hx1, hx2, -, -⟩ := shifted_parts x hx
  obtain ⟨-, -, -, hy1, hy2⟩ := shifted_parts y hy
  unfold groupBytes
  simp only [ha, hb, hc, hd, Int.toNat_natCast]
  rw [(shifted_parts w hw).1, hx1, hx2, hy1, hy2, hfirst w hw _ (by omega),
    hsecond _ (by omega) _ (by omega), hthird _ (by omega) z hz]

theorem keep_of_base64 {b : UInt8} {value : ℕ} (hvalue : base64 b = value) : ¬ base64 b < 0 := by
  omega

/-- A complete group of characters is decoded, whatever has been decoded before. -/
theorem feedAll_four {a b c d : UInt8} {w x y z : ℕ} (ha : base64 a = w) (hb : base64 b = x)
    (hc : base64 c = y) (hd : base64 d = z) (hw : w < 64) (hx : x < 64) (hy : y < 64)
    (hz : z < 64) (decoded rest : Bytes) :
    Decoder.feedAll ⟨decoded, []⟩ (a :: b :: c :: d :: rest) =
      Decoder.feedAll ⟨decoded ++ [UInt8.ofNat (w * 4 + x / 16), UInt8.ofNat (x % 16 * 16 + y / 4),
        UInt8.ofNat (y % 4 * 64 + z)].take (groupLength c d), []⟩ rest := by
  have hchars : ∀ e ∈ [a, b, c], ¬ base64 e < 0 := by
    intro e he
    simp only [mem_cons, not_mem_nil, or_false] at he
    rcases he with rfl | rfl | rfl
    · exact keep_of_base64 ha
    · exact keep_of_base64 hb
    · exact keep_of_base64 hc
  have hgroup : Decoder.feedAll ⟨decoded, []⟩ [a, b, c] = ⟨decoded, [a, b, c]⟩ := by
    rw [Decoder.feedAll_decoded _ [] _ (Nat.zero_lt_succ _),
      @Decoder.feedAll_group [a, b, c] (Nat.lt_succ_self 3) hchars, append_nil]
  change Decoder.feedAll ⟨decoded, []⟩ ([a, b, c] ++ d :: rest) = _
  rw [Decoder.feedAll_append, hgroup, ← groupBytes_eq ha hb hc hd hw hx hy hz, ← decodeGroup_eq]
  exact congrArg (Decoder.feedAll · rest) (Decoder.feed_group (keep_of_base64 hd))

/-- The decoder gives back what was encoded. -/
theorem feedAll_encode64 (message decoded : Bytes) :
    Decoder.feedAll ⟨decoded, []⟩ (encode64 message) = ⟨decoded ++ message, []⟩ := by
  have hbyte (a : UInt8) : a.toNat < 256 := a.toNat_lt
  induction message using encode64.induct generalizing decoded with
  | case1 a b c rest ih =>
    have ha := hbyte a
    have hb := hbyte b
    have hc := hbyte c
    obtain ⟨hw, -⟩ := base64_alphabet64 (a.toNat / 4) (by omega)
    obtain ⟨hx, -⟩ := base64_alphabet64 (a.toNat % 4 * 16 + b.toNat / 16) (by omega)
    obtain ⟨hy, -⟩ := base64_alphabet64 (b.toNat % 16 * 4 + c.toNat / 64) (by omega)
    obtain ⟨hz, hpad⟩ := base64_alphabet64 (c.toNat % 64) (by omega)
    have hfirst : a.toNat / 4 * 4 + (a.toNat % 4 * 16 + b.toNat / 16) / 16 = a.toNat := by omega
    have hsecond : (a.toNat % 4 * 16 + b.toNat / 16) % 16 * 16 +
        (b.toNat % 16 * 4 + c.toNat / 64) / 4 = b.toNat := by omega
    have hthird : (b.toNat % 16 * 4 + c.toNat / 64) % 4 * 64 + c.toNat % 64 = c.toNat := by omega
    rw [encode64, feedAll_four hw hx hy hz (by omega) (by omega) (by omega) (by omega),
      groupLength, if_neg hpad, hfirst, hsecond, hthird, ih, append_assoc]
    simp only [UInt8.ofNat_toNat]
    rfl
  | case2 a b =>
    have ha := hbyte a
    have hb := hbyte b
    obtain ⟨hw, -⟩ := base64_alphabet64 (a.toNat / 4) (by omega)
    obtain ⟨hx, -⟩ := base64_alphabet64 (a.toNat % 4 * 16 + b.toNat / 16) (by omega)
    obtain ⟨hy, hpad⟩ := base64_alphabet64 (b.toNat % 16 * 4) (by omega)
    have hfirst : a.toNat / 4 * 4 + (a.toNat % 4 * 16 + b.toNat / 16) / 16 = a.toNat := by omega
    have hsecond : (a.toNat % 4 * 16 + b.toNat / 16) % 16 * 16 + b.toNat % 16 * 4 / 4 =
        b.toNat := by omega
    rw [encode64, feedAll_four hw hx hy base64_pad (by omega) (by omega) (by omega) (by omega),
      groupLength, if_pos rfl, if_neg hpad, hfirst, hsecond]
    simp only [UInt8.ofNat_toNat]
    rfl
  | case3 a =>
    have ha := hbyte a
    obtain ⟨hw, -⟩ := base64_alphabet64 (a.toNat / 4) (by omega)
    obtain ⟨hx, -⟩ := base64_alphabet64 (a.toNat % 4 * 16) (by omega)
    have hfirst : a.toNat / 4 * 4 + a.toNat % 4 * 16 / 16 = a.toNat := by omega
    rw [encode64, feedAll_four hw hx base64_pad base64_pad (by omega) (by omega) (by omega)
      (by omega), groupLength, if_pos rfl, if_pos rfl, hfirst]
    simp only [UInt8.ofNat_toNat]
    rfl
  | case4 => rw [encode64, append_nil]; rfl

theorem feedAll_messages (messages : List Bytes) (decoded : Bytes) :
    Decoder.feedAll ⟨decoded, []⟩ (messages.flatMap encode64) =
      ⟨decoded ++ messages.flatten, []⟩ := by
  induction messages generalizing decoded with
  | nil => rw [flatMap_nil, flatten_nil, append_nil]; rfl
  | cons message messages ih =>
    rw [flatMap_cons, Decoder.feedAll_append, feedAll_encode64, ih, append_assoc, flatten_cons]

/-- Bytes outside the alphabet make no difference. -/
theorem feedAll_filter (s : Decoder) (text : Bytes) :
    s.feedAll (text.filter inAlphabet) = s.feedAll text := by
  induction text generalizing s with
  | nil => rfl
  | cons b text ih =>
    by_cases hskip : base64 b < 0
    · rw [filter_cons_of_neg (by simpa [inAlphabet] using hskip), ih]
      exact congrArg (Decoder.feedAll · text) (Decoder.feed_skip hskip).symm
    · rw [filter_cons_of_pos (by simpa [inAlphabet] using hskip)]
      exact ih _

/-- On a connection that has become a tunnel, whatever stands in its buffer, however the text is cut
into pieces by `read()` and whatever is dispatched: the text that `do_read` reads is all of the
pieces, or the pieces up to the one with which it drops the connection. If this text without the
bytes outside the alphabet is the encoding of some messages, then `unbase64` has produced exactly
these messages, and no character is kept; and for every text, what it has produced and the number of
characters it keeps are those of one call on the whole text.

Assumes: each piece is a possible result of `read()`. -/
theorem tunnel_decodes_messages (callees : Callees) (proto : Proto) (reqBuf : Bytes)
    (pieces : List Bytes) (after : Tunnel)
    (hrun : tunnelRun callees proto reqBuf pieces = some after) :
    (∃ later, pieces.flatten = after.text ++ later ∧
      (after.reading.ended = false → later = [])) ∧
    (∀ messages : List Bytes, after.text.filter inAlphabet = messages.flatMap encode64 →
      after.produced = messages.flatten ∧
        (after.reading.ended = false → after.reading.reader.base64Count = 0)) ∧
    after.produced = (unbase64InPlace after.text).1.take
      ((unbase64InPlace after.text).2.1 - (unbase64InPlace after.text).2.2) ∧
    (after.reading.ended = false →
      after.reading.reader.base64Count = (unbase64InPlace after.text).2.2) := by
  obtain ⟨-, hpieces, hholds, hproduced⟩ := keeps_tunnelRun hrun
  obtain ⟨hall, hlen, hremain⟩ := unbase64InPlace_spec after.text
  have hwhole := @unbase64_eq [] (Nat.zero_lt_succ _) after.text
  refine ⟨hpieces, fun messages hmessages ↦ ?_, ?_, fun hopen ↦ ?_⟩
  · rw [← feedAll_filter, hmessages, feedAll_messages] at hholds hproduced
    exact ⟨hproduced, fun hopen ↦ (hholds hopen).1⟩
  · -- The decoded bytes are the front of what one call leaves in the buffer.
    set whole := Decoder.feedAll ⟨[], []⟩ after.text
    rw [hwhole] at hall hlen hremain
    dsimp only at hall hlen hremain
    rw [length_append] at hlen
    calc after.produced
        = (whole.decoded ++ whole.group).take whole.decoded.length := by
          rw [take_left, hproduced]
      _ = (unbase64InPlace after.text).1.take
            (min whole.decoded.length (unbase64InPlace after.text).2.1) := by
          rw [← hall, take_take]
      _ = (unbase64InPlace after.text).1.take
            ((unbase64InPlace after.text).2.1 - (unbase64InPlace after.text).2.2) := by
          rw [hlen, hremain, Nat.min_eq_left (Nat.le_add_right _ _), Nat.add_sub_cancel]
  · rw [hremain, hwhole]
    exact (hholds hopen).1

/-- A request in two pieces, with a line break in a group, and a second request. -/
def samplePosts : List Bytes :=
  [(encode64 optionsRequest).take 6 ++ ascii "\r\n", (encode64 optionsRequest).drop 6,
    encode64 optionsRequest]

/-- Both requests are decoded, and dispatched. -/
theorem tunnel_decodes_sample :
    ∃ after, tunnelRun plainCallees .rtsp [] samplePosts = some after ∧
      after.reading.dispatched = [.request optionsRequest, .request optionsRequest] ∧
      after.produced = [optionsRequest, optionsRequest].flatten ∧
      after.reading.reader.base64Count = 0 := by
  have hmap : (tunnelRun plainCallees .rtsp [] samplePosts).map
      (fun after ↦ (after.reading.ended, after.reading.dispatched)) =
        some (false, [.request optionsRequest, .request optionsRequest]) := by
    decide +kernel
  obtain ⟨after, hrun, hafter⟩ := Option.map_eq_some_iff.mp hmap
  obtain ⟨hopen, hdispatched⟩ := Prod.mk.inj hafter
  obtain ⟨⟨later, htext, hlater⟩, hmessages, -⟩ :=
    tunnel_decodes_messages plainCallees .rtsp [] samplePosts after hrun
  rw [hlater hopen, append_nil] at htext
  obtain ⟨hproduced, hcount⟩ := hmessages [optionsRequest, optionsRequest] (by
    rw [← htext]
    decide +kernel)
  exact ⟨after, hrun, hdispatched, hproduced, hcount hopen⟩

/-- The first of these messages is no request, and the connection is dropped with it: the second one
is not decoded. -/
theorem tunnel_drops_rest :
    (tunnelRun plainCallees .rtsp [] ([ascii "A\r\n\r\n", ascii "B"].map encode64)).map
        (fun after ↦ (after.reading.ended, after.produced)) =
      some (true, ascii "A\r\n\r\n") := by
  decide +kernel

end WisCam.Connection
