import WisCam.Rtp.Jpeg

/-!
# What `jpeg_process_frame` accepts

A frame is described by its bytes alone: where its marker segments start (`segments`), where the
scan starts (`scanStart`), which components the starts of frame name and where the quantisation
tables lie (`tables`). `parsed_of_accepted` says what `jpeg_process_frame` has left in its state when
it accepts a frame, in terms of this description: the last start of frame gives the size and the
chroma table, the last luma component of any start of frame gives the type and the luma table, which
otherwise are those of an earlier frame, and a table is the last one with its number.

Two results follow. `accepted_frames_sound_iff` says for which accepted frames everything that
`jpeg_send` uses belongs to the frame. `same_layout_iff` says which two accepted frames with the
same RTP header have the same layout.
-/

set_option autoImplicit false

namespace WisCam.Rtp

open Foundations List

/-! ### The segments of a frame -/

/-- The segments from the offset `i` on, and the start of the scan. -/
def segmentsFrom (f : Frame) : ℕ → ℤ → List ℤ × Option ℤ
  | 0, _ => ([], none)
  | fuel + 1, i =>
    if i < f.length ∧ f.mem i = 0xFF then
      if f.mem (i + 1) = 0xDA then ([], some i)
      else
        let rest := segmentsFrom f fuel (i + (blen f i + 2))
        (i :: rest.1, rest.2)
    else ([], none)

/-- The offsets of the segments before the scan. -/
def segments (f : Frame) : List ℤ := (segmentsFrom f f.length 0).1

/-- The offset of the start of the scan. -/
def scanStart (f : Frame) : Option ℤ := (segmentsFrom f f.length 0).2

/-- The segments among the given ones that are a start of frame. -/
def sofs (f : Frame) (starts : List ℤ) : List ℤ := starts.filter fun i ↦ f.mem (i + 1) = 0xC0

/-- The start of frame at `i` names a component. -/
def Names (f : Frame) (i : ℤ) (component : UInt8) : Prop :=
  ∃ c ∈ ([6, 9, 12] : List ℤ), f.mem (i + 4 + c) = component

instance (f : Frame) (i : ℤ) (component : UInt8) : Decidable (Names f i component) :=
  inferInstanceAs (Decidable (∃ c ∈ ([6, 9, 12] : List ℤ), _))

/-- The sampling factor and the table of the component at `d + c`, if this is the luma component. -/
def lumaAt (f : Frame) (d c : ℤ) : Option (UInt8 × ℕ) :=
  if f.mem (d + c) = 1 then some (f.mem (d + c + 1), (f.mem (d + c + 2)).toNat) else none

/-- The luma components of the given segments. -/
def lumas (f : Frame) (starts : List ℤ) : List (UInt8 × ℕ) :=
  (sofs f starts).flatMap fun i ↦ [6, 9, 12].filterMap (lumaAt f (i + 4))

/-- The table of the component at `d + c`, if this is a chroma component. -/
def chromaAt (f : Frame) (d c : ℤ) : Option ℕ :=
  if f.mem (d + c) = 2 ∨ f.mem (d + c) = 3 then some (f.mem (d + c + 2)).toNat else none

/-- The tables of the chroma components of the last start of frame. -/
def chromas (f : Frame) (starts : List ℤ) : List ℕ :=
  (sofs f starts).getLast?.elim [] fun i ↦ [6, 9, 12].filterMap (chromaAt f (i + 4))

/-- The tables in the `len` bytes at the offset `d`, from the offset `d + i` on: the number of each,
and where its 64 bytes start. -/
def tablesFrom (f : Frame) (d len : ℤ) : ℕ → ℤ → List (ℤ × ℤ)
  | 0, _ => []
  | fuel + 1, i =>
    if i < len then
      (((f.mem (d + i)).toNat % 16 : ℕ), d + i + 1) :: tablesFrom f d len fuel (i + 65)
    else []

/-- The tables of the segment at `i`. -/
def tablesAt (f : Frame) (i : ℤ) : List (ℤ × ℤ) :=
  if f.mem (i + 1) = 0xDB then tablesFrom f (i + 4) (blen f i - 2) (blen f i - 2 : ℤ).toNat 0
  else []

/-- The tables of the given segments. -/
def tables (f : Frame) (starts : List ℤ) : List (ℤ × ℤ) := starts.flatMap (tablesAt f)

/-- Where the last of some tables with the number `n` starts. -/
def lastTable (tables : List (ℤ × ℤ)) (n : ℤ) : Option ℤ := tables.reverse.lookup n

/-! ### The parsers of the segments -/

/-- The segments are parsed one after the other. -/
def parseAll (f : Frame) : List ℤ → RtpJpeg → Option RtpJpeg
  | [], out => some out
  | i :: rest, out =>
    let (ret, out) := parseSegment f (f.mem (i + 1)) (i + 4) (blen f i - 2) out
    if ret < 0 then none else parseAll f rest out

variable {f : Frame} {i : ℤ} {out : RtpJpeg}

/-- An accepted walk parses all segments and then starts the scan. -/
theorem jpegWalk_accepted {ms fuel : ℕ} (haccepted : (jpegWalk f ms fuel i out).1 ≠ 0) :
    ∃ scan out', (segmentsFrom f fuel i).2 = some scan ∧ scan < f.length ∧ i ≤ scan ∧
      parseAll f (segmentsFrom f fuel i).1 out = some out' ∧
        jpegWalk f ms fuel i out = startScan f ms scan out' := by
  induction fuel generalizing i out with
  | zero => exact absurd rfl haccepted
  | succ fuel ih =>
    rw [jpegWalk] at haccepted ⊢
    rw [segmentsFrom]
    by_cases hi : i < f.length
    · by_cases hmarker : f.mem i = 0xFF
      · rw [if_pos hi, if_neg (not_not.mpr hmarker)] at haccepted ⊢
        rw [if_pos ⟨hi, hmarker⟩]
        by_cases hscan : f.mem (i + 1) = 0xDA
        · rw [if_pos hscan, if_pos hscan]
          exact ⟨i, out, rfl, hi, le_refl i, rfl, rfl⟩
        · rw [if_neg hscan] at haccepted ⊢
          rw [if_neg hscan]
          dsimp only at haccepted ⊢
          by_cases hret : (parseSegment f (f.mem (i + 1)) (i + 4) (blen f i - 2) out).1 < 0
          · rw [if_pos hret] at haccepted
            exact absurd rfl haccepted
          · rw [if_neg hret] at haccepted ⊢
            obtain ⟨scan, out', hstart, hlast, hle, hparsed, hwalk⟩ := ih haccepted
            refine ⟨scan, out', hstart, hlast, by omega, ?_, hwalk⟩
            rw [parseAll]
            dsimp only
            rw [if_neg hret]
            exact hparsed
      · rw [if_pos hi, if_pos hmarker] at haccepted
        exact absurd rfl haccepted
    · rw [if_neg hi] at haccepted
      exact absurd rfl haccepted

variable {out' : RtpJpeg}

theorem quantAt_congr (hquant : out'.quant = out.quant) (n : ℤ) :
    out'.quantAt n = out.quantAt n := by
  rw [RtpJpeg.quantAt, RtpJpeg.quantAt, hquant]

theorem lastTable_append (first second : List (ℤ × ℤ)) (n : ℤ) :
    lastTable (first ++ second) n = (lastTable second n).or (lastTable first n) := by
  rw [lastTable, reverse_append, lookup_append]
  rfl

/-- `out->quant[table] = p`, for a number of four bits. -/
theorem quantAt_update (out : RtpJpeg) (table : ℕ) (p n : ℤ) :
    RtpJpeg.quantAt { out with
        quant := Function.update out.quant (Fin.ofNat 16 table) (some p) } n =
      (lastTable [((table % 16 : ℕ), p)] n).or (out.quantAt n) := by
  have hlast : lastTable [((table % 16 : ℕ), p)] n =
      if n = (table % 16 : ℕ) then some p else none := by
    rw [lastTable, reverse_singleton, lookup_cons]
    by_cases hn : n = (table % 16 : ℕ)
    · rw [beq_iff_eq.mpr hn, if_pos hn]
    · rw [beq_eq_false_iff_ne.mpr hn, if_neg hn]
      rfl
  rw [hlast]
  unfold RtpJpeg.quantAt
  by_cases hn : n = (table % 16 : ℕ)
  · have hlt : n.toNat < 16 := by omega
    have hnumber : (⟨n.toNat, hlt⟩ : Fin 16) = Fin.ofNat 16 table :=
      Fin.ext (show n.toNat = table % 16 by omega)
    rw [if_pos hn, dif_pos hlt, if_pos (by omega), hnumber]
    exact Function.update_self _ _ _
  · rw [if_neg hn, Option.none_or]
    split_ifs with hlt hpos
    · refine Function.update_of_ne (fun hnumber ↦ hn ?_) _ _
      have hval : n.toNat = table % 16 := congrArg Fin.val hnumber
      omega
    · rfl
    · rfl

/-- What a segment other than a start of frame does: the picture stays, and tables are defined. -/
structure Defines (entries : List (ℤ × ℤ)) (out out' : RtpJpeg) : Prop where
  type : out'.type = out.type
  width : out'.width = out.width
  height : out'.height = out.height
  lumaTable : out'.lumaTable = out.lumaTable
  chromaTable : out'.chromaTable = out.chromaTable
  quant : ∀ n, out'.quantAt n = (lastTable entries n).or (out.quantAt n)

theorem Defines.refl (out : RtpJpeg) : Defines [] out out :=
  ⟨rfl, rfl, rfl, rfl, rfl, fun _ ↦ rfl⟩

theorem Defines.trans {out'' : RtpJpeg} {first second : List (ℤ × ℤ)}
    (hfirst : Defines first out out') (hsecond : Defines second out' out'') :
    Defines (first ++ second) out out'' where
  type := hsecond.type.trans hfirst.type
  width := hsecond.width.trans hfirst.width
  height := hsecond.height.trans hfirst.height
  lumaTable := hsecond.lumaTable.trans hfirst.lumaTable
  chromaTable := hsecond.chromaTable.trans hfirst.chromaTable
  quant n := by rw [hsecond.quant, hfirst.quant, lastTable_append, Option.or_assoc]

theorem defines_entry (out : RtpJpeg) (table : ℕ) (p : ℤ) :
    Defines [((table % 16 : ℕ), p)] out
      { out with quant := Function.update out.quant (Fin.ofNat 16 table) (some p) } :=
  ⟨rfl, rfl, rfl, rfl, rfl, quantAt_update out table p⟩

theorem Defines.quantAt_ne_none {entries : List (ℤ × ℤ)} (hdefines : Defines entries out out')
    {n : ℤ} (hdefined : out.quantAt n ≠ none) : out'.quantAt n ≠ none := by
  rw [hdefines.quant]
  exact fun hnone ↦ hdefined (Option.or_eq_none_iff.mp hnone).2

variable {d : ℤ}

theorem defines_parseDqtFrom {len : ℤ} {fuel : ℕ}
    (hret : ¬ (parseDqtFrom f d len fuel i out).1 < 0) :
    Defines (tablesFrom f d len fuel i) out (parseDqtFrom f d len fuel i out).2 := by
  induction fuel generalizing i out with
  | zero => exact Defines.refl out
  | succ fuel ih =>
    rw [parseDqtFrom] at hret ⊢
    rw [tablesFrom]
    by_cases hi : i < len
    · rw [if_pos hi] at hret ⊢
      rw [if_pos hi]
      by_cases hprecision : f.mem (d + i) &&& 0xF0 ≠ 0
      · rw [if_pos hprecision] at hret
        exact absurd (show (-1 : ℤ) < 0 by decide) hret
      · rw [if_neg hprecision] at hret ⊢
        exact (defines_entry out (f.mem (d + i)).toNat (d + i + 1)).trans (ih hret)
    · rw [if_neg hi, if_neg hi]
      exact Defines.refl out

/-- A segment that is not a start of frame. -/
theorem defines_parseSegment (hmarker : f.mem (i + 1) ≠ 0xC0)
    (hret : ¬ (parseSegment f (f.mem (i + 1)) (i + 4) (blen f i - 2) out).1 < 0) :
    Defines (tablesAt f i) out
      (parseSegment f (f.mem (i + 1)) (i + 4) (blen f i - 2) out).2 := by
  unfold parseSegment at hret ⊢
  unfold tablesAt
  by_cases hdqt : f.mem (i + 1) = 0xDB
  · rw [if_pos hdqt] at hret ⊢
    rw [if_pos hdqt]
    exact defines_parseDqtFrom hret
  · rw [if_neg hdqt, if_neg hmarker, if_neg hdqt]
    split_ifs
    · exact Defines.refl out
    · exact Defines.refl out
    · exact ⟨rfl, rfl, rfl, rfl, rfl, fun _ ↦ rfl⟩
    · exact Defines.refl out

/-! ### The components of a start of frame -/

/-- The type for a luma sampling factor. -/
def lumaType (sampling : UInt8) : ℤ := if sampling = 0x22 then 1 else 0

/-- The luma sampling factors that are accepted. -/
def ValidSampling (sampling : UInt8) : Prop := sampling = 0x11 ∨ sampling = 0x22 ∨ sampling = 0x21

/-- A component that is read names its table. -/
theorem parseComponent_spec {c : ℤ} (hret : ¬ (parseComponent f d c out).1 < 0) :
    (∃ sampling table, lumaAt f d c = some (sampling, table) ∧ ValidSampling sampling ∧
        out.quantAt table ≠ none ∧ (parseComponent f d c out).2 =
          { out with type := lumaType sampling, lumaTable := table }) ∨
      (lumaAt f d c = none ∧ ∃ table, chromaAt f d c = some table ∧ out.quantAt table ≠ none ∧
          (parseComponent f d c out).2 = { out with chromaTable := table }) := by
  have hfails : (-1 : ℤ) < 0 := by decide
  unfold parseComponent at hret ⊢
  dsimp only at hret ⊢
  by_cases htable : 16 ≤ (f.mem (d + c + 2)).toNat ∨
      out.quantAt ((f.mem (d + c + 2)).toNat : ℤ) = none
  · rw [if_pos htable] at hret
    exact absurd hfails hret
  rw [if_neg htable] at hret ⊢
  obtain ⟨-, hdefined⟩ := not_or.mp htable
  by_cases hluma : f.mem (d + c) = 1
  · rw [if_pos hluma] at hret ⊢
    refine Or.inl ⟨f.mem (d + c + 1), (f.mem (d + c + 2)).toNat, if_pos hluma, ?_, hdefined, ?_⟩
    · split_ifs at hret with h₁ h₂ h₃
      · exact Or.inl h₁
      · exact Or.inr (Or.inl h₂)
      · exact Or.inr (Or.inr h₃)
      · exact absurd hfails hret
    · split_ifs at hret ⊢ with h₁ h₂ h₃
      · rw [h₁]
        rfl
      · rw [h₂]
        rfl
      · rw [h₃]
        rfl
      · exact absurd hfails hret
  · rw [if_neg hluma] at hret ⊢
    refine Or.inr ⟨if_neg hluma, (f.mem (d + c + 2)).toNat, if_pos ?_, hdefined, ?_⟩
    · split_ifs at hret with hchroma
      · exact hchroma
      · exact hchroma
      · exact hchroma
      · exact hchroma
      · exact absurd hfails hret
    · split_ifs at hret ⊢ with hchroma hsampling hunset hother
      · exact absurd hfails hret
      · rfl
      · exact absurd hfails hret
      · rw [← not_not.mp hother]
      · exact absurd hfails hret

/-- What reading components does to the state. -/
structure ComponentsRead (f : Frame) (d : ℤ) (cs : List ℤ) (out out' : RtpJpeg) : Prop where
  quant : out'.quant = out.quant
  width : out'.width = out.width
  height : out'.height = out.height
  valid : ∀ luma ∈ cs.filterMap (lumaAt f d), ValidSampling luma.1
  type : out'.type = ((cs.filterMap (lumaAt f d)).getLast?.map (lumaType ·.1)).getD out.type
  lumaTable : out'.lumaTable =
    ((cs.filterMap (lumaAt f d)).getLast?.map fun luma ↦ (luma.2 : ℤ)).getD out.lumaTable
  lumaDefined : cs.filterMap (lumaAt f d) ≠ [] → out.quantAt out'.lumaTable ≠ none
  chromaTable : out'.chromaTable =
    ((cs.filterMap (chromaAt f d)).getLast?.map Nat.cast).getD out.chromaTable
  chromaDefined : cs.filterMap (chromaAt f d) ≠ [] → out.quantAt out'.chromaTable ≠ none

theorem componentsRead_parseComponents {cs : List ℤ} (hret : ¬ (parseComponents f d cs out).1 < 0) :
    ComponentsRead f d cs out (parseComponents f d cs out).2 := by
  induction cs generalizing out with
  | nil =>
    exact ⟨rfl, rfl, rfl, fun _ h ↦ absurd h not_mem_nil, rfl, rfl, fun h ↦ absurd rfl h, rfl,
      fun h ↦ absurd rfl h⟩
  | cons c cs ih =>
    rw [parseComponents] at hret ⊢
    dsimp only at hret ⊢
    by_cases hfirst : (parseComponent f d c out).1 < 0
    · rw [if_pos hfirst] at hret
      exact absurd (show (-1 : ℤ) < 0 by decide) hret
    rw [if_neg hfirst] at hret ⊢
    have hrest := ih hret
    generalize (parseComponents f d cs (parseComponent f d c out).2).2 = out' at hrest ⊢
    rcases parseComponent_spec hfirst with ⟨sampling, table, hluma, hvalid, hdefined, hread⟩ |
      ⟨hluma, table, hchroma, hdefined, hread⟩
    · rw [hread] at hrest
      have hcons : (c :: cs).filterMap (lumaAt f d) =
          (sampling, table) :: cs.filterMap (lumaAt f d) := filterMap_cons_some hluma
      have hchroma : (c :: cs).filterMap (chromaAt f d) = cs.filterMap (chromaAt f d) := by
        refine filterMap_cons_none (if_neg ?_)
        rw [lumaAt] at hluma
        split_ifs at hluma with hone
        rw [hone]
        decide
      refine ⟨hrest.quant, hrest.width, hrest.height, ?_, ?_, ?_, ?_, ?_, ?_⟩
      · rw [hcons]
        exact forall_mem_cons.mpr ⟨hvalid, hrest.valid⟩
      · rw [hrest.type, hcons, List.getLast?_cons]
        cases (cs.filterMap (lumaAt f d)).getLast? <;> rfl
      · rw [hrest.lumaTable, hcons, List.getLast?_cons]
        cases (cs.filterMap (lumaAt f d)).getLast? <;> rfl
      · intro _
        by_cases hnil : cs.filterMap (lumaAt f d) = []
        · rw [hrest.lumaTable, hnil]
          exact hdefined
        · exact hrest.lumaDefined hnil
      · rw [hchroma]
        exact hrest.chromaTable
      · rw [hchroma]
        exact hrest.chromaDefined
    · rw [hread] at hrest
      have hcons : (c :: cs).filterMap (lumaAt f d) = cs.filterMap (lumaAt f d) :=
        filterMap_cons_none hluma
      have htables : (c :: cs).filterMap (chromaAt f d) = table :: cs.filterMap (chromaAt f d) :=
        filterMap_cons_some hchroma
      refine ⟨hrest.quant, hrest.width, hrest.height, ?_, ?_, ?_, ?_, ?_, ?_⟩
      · rw [hcons]
        exact hrest.valid
      · rw [hcons]
        exact hrest.type
      · rw [hcons]
        exact hrest.lumaTable
      · rw [hcons]
        exact hrest.lumaDefined
      · rw [hrest.chromaTable, htables, List.getLast?_cons]
        cases (cs.filterMap (chromaAt f d)).getLast? <;> rfl
      · intro _
        by_cases hnil : cs.filterMap (chromaAt f d) = []
        · rw [hrest.chromaTable, hnil]
          exact hdefined
        · exact hrest.chromaDefined hnil

/-- What a start of frame at the offset `d` does to the state. -/
structure SofRead (f : Frame) (d : ℤ) (out out' : RtpJpeg) : Prop where
  components : ComponentsRead f d [6, 9, 12]
    { out with chromaTable := -1, height := out'.height, width := out'.width } out'
  height : out'.height = (get16 (f.mem (d + 1)) (f.mem (d + 2)) / 8 : ℕ)
  width : out'.width = (get16 (f.mem (d + 3)) (f.mem (d + 4)) / 8 : ℕ)
  dvd_height : 8 ∣ get16 (f.mem (d + 1)) (f.mem (d + 2))
  dvd_width : 8 ∣ get16 (f.mem (d + 3)) (f.mem (d + 4))

theorem sofRead_parseSof (hret : ¬ (parseSof f d out).1 < 0) :
    SofRead f d out (parseSof f d out).2 := by
  have hfails : (-1 : ℤ) < 0 := by decide
  unfold parseSof at hret ⊢
  dsimp only at hret ⊢
  split_ifs at hret ⊢ with hprecision hsize hcount
  · exact absurd hfails hret
  · exact absurd hfails hret
  · exact absurd hfails hret
  · obtain ⟨hheight, hwidth⟩ := not_or.mp hsize
    have hread := componentsRead_parseComponents hret
    refine ⟨?_, hread.height, hread.width, Nat.dvd_of_mod_eq_zero (not_not.mp hheight),
      Nat.dvd_of_mod_eq_zero (not_not.mp hwidth)⟩
    rw [hread.height, hread.width]
    exact hread

/-! ### A whole frame -/

/-- The state after the given segments of a frame, compared with the state before the frame. -/
structure Parsed (f : Frame) (before : RtpJpeg) (starts : List ℤ) (out : RtpJpeg) : Prop where
  quant : ∀ n, out.quantAt n = lastTable (tables f starts) n
  valid : ∀ luma ∈ lumas f starts, ValidSampling luma.1
  type : out.type = ((lumas f starts).getLast?.map (lumaType ·.1)).getD before.type
  lumaTable : out.lumaTable =
    ((lumas f starts).getLast?.map fun luma ↦ (luma.2 : ℤ)).getD before.lumaTable
  lumaDefined : lumas f starts ≠ [] → out.quantAt out.lumaTable ≠ none
  chromaTable : sofs f starts ≠ [] →
    out.chromaTable = ((chromas f starts).getLast?.map Nat.cast).getD (-1)
  chromaDefined : chromas f starts ≠ [] → out.quantAt out.chromaTable ≠ none
  height : ∀ i, (sofs f starts).getLast? = some i →
    out.height = (get16 (f.mem (i + 5)) (f.mem (i + 6)) / 8 : ℕ) ∧
      8 ∣ get16 (f.mem (i + 5)) (f.mem (i + 6))
  width : ∀ i, (sofs f starts).getLast? = some i →
    out.width = (get16 (f.mem (i + 7)) (f.mem (i + 8)) / 8 : ℕ) ∧
      8 ∣ get16 (f.mem (i + 7)) (f.mem (i + 8))

theorem sofs_concat (f : Frame) (starts : List ℤ) (i : ℤ) :
    sofs f (starts ++ [i]) = sofs f starts ++ if f.mem (i + 1) = 0xC0 then [i] else [] := by
  rw [sofs, filter_append, filter_singleton]
  congr 1
  by_cases hmarker : f.mem (i + 1) = 0xC0 <;> simp [hmarker]

theorem tables_concat (f : Frame) (starts : List ℤ) (i : ℤ) :
    tables f (starts ++ [i]) = tables f starts ++ tablesAt f i := by
  rw [tables, flatMap_append, flatMap_singleton]
  rfl

variable {before : RtpJpeg} {starts : List ℤ}

/-- A segment that is not a start of frame. -/
theorem Parsed.keep (hparsed : Parsed f before starts out) (hmarker : f.mem (i + 1) ≠ 0xC0)
    (hdefines : Defines (tablesAt f i) out out') : Parsed f before (starts ++ [i]) out' := by
  have hsofs : sofs f (starts ++ [i]) = sofs f starts := by
    rw [sofs_concat, if_neg hmarker, append_nil]
  have hlumas : lumas f (starts ++ [i]) = lumas f starts := by
    rw [lumas, lumas, hsofs]
  have hchromas : chromas f (starts ++ [i]) = chromas f starts := by
    rw [chromas, chromas, hsofs]
  constructor
  · intro n
    rw [hdefines.quant, hparsed.quant, tables_concat, lastTable_append]
  · rw [hlumas]
    exact hparsed.valid
  · rw [hlumas, hdefines.type, hparsed.type]
  · rw [hlumas, hdefines.lumaTable, hparsed.lumaTable]
  · rw [hlumas, hdefines.lumaTable]
    exact fun hne ↦ hdefines.quantAt_ne_none (hparsed.lumaDefined hne)
  · rw [hsofs, hchromas, hdefines.chromaTable]
    exact hparsed.chromaTable
  · rw [hchromas, hdefines.chromaTable]
    exact fun hne ↦ hdefines.quantAt_ne_none (hparsed.chromaDefined hne)
  · rw [hsofs, hdefines.height]
    exact hparsed.height
  · rw [hsofs, hdefines.width]
    exact hparsed.width

/-- A start of frame. -/
theorem Parsed.sof (hparsed : Parsed f before starts out) (hmarker : f.mem (i + 1) = 0xC0)
    (hsof : SofRead f (i + 4) out out') : Parsed f before (starts ++ [i]) out' := by
  have hsofs : sofs f (starts ++ [i]) = sofs f starts ++ [i] := by
    rw [sofs_concat, if_pos hmarker]
  have hlumas : lumas f (starts ++ [i]) =
      lumas f starts ++ [6, 9, 12].filterMap (lumaAt f (i + 4)) := by
    rw [lumas, hsofs, flatMap_append, flatMap_singleton]
    rfl
  have hchromas : chromas f (starts ++ [i]) = [6, 9, 12].filterMap (chromaAt f (i + 4)) := by
    rw [chromas, hsofs, List.getLast?_concat]
    rfl
  have htables : tables f (starts ++ [i]) = tables f starts := by
    rw [tables_concat, tablesAt, if_neg (by rw [hmarker]; decide), append_nil]
  have hread := hsof.components
  have hquant : out'.quant = out.quant := hread.quant
  have hquantAt (n : ℤ) : out'.quantAt n = out.quantAt n := quantAt_congr hquant n
  have hlast {j : ℤ} (hj : (sofs f (starts ++ [i])).getLast? = some j) : i = j := by
    rw [hsofs, List.getLast?_concat] at hj
    exact Option.some.inj hj
  constructor
  · intro n
    rw [hquantAt, hparsed.quant, htables]
  · rw [hlumas]
    exact forall_mem_append.mpr ⟨hparsed.valid, hread.valid⟩
  · rw [hread.type, hlumas, List.getLast?_append]
    cases ([6, 9, 12].filterMap (lumaAt f (i + 4))).getLast? with
    | none => exact hparsed.type
    | some luma => rfl
  · rw [hread.lumaTable, hlumas, List.getLast?_append]
    cases ([6, 9, 12].filterMap (lumaAt f (i + 4))).getLast? with
    | none => exact hparsed.lumaTable
    | some luma => rfl
  · intro hne
    rw [hlumas] at hne
    rw [hquantAt]
    by_cases hnil : [6, 9, 12].filterMap (lumaAt f (i + 4)) = []
    · rw [hnil, append_nil] at hne
      rw [hread.lumaTable, hnil]
      exact hparsed.lumaDefined hne
    · exact hread.lumaDefined hnil
  · rw [hchromas]
    exact fun _ ↦ hread.chromaTable
  · rw [hchromas, hquantAt]
    exact hread.chromaDefined
  · intro j hj
    obtain rfl := hlast hj
    have hheight := hsof.height
    have hdvd := hsof.dvd_height
    rw [show i + 4 + 1 = i + 5 by omega, show i + 4 + 2 = i + 6 by omega] at hheight hdvd
    exact ⟨hheight, hdvd⟩
  · intro j hj
    obtain rfl := hlast hj
    have hwidth := hsof.width
    have hdvd := hsof.dvd_width
    rw [show i + 4 + 3 = i + 7 by omega, show i + 4 + 4 = i + 8 by omega] at hwidth hdvd
    exact ⟨hwidth, hdvd⟩

theorem parsed_parseAll {done : List ℤ} (hparsed : Parsed f before done out)
    (hall : parseAll f starts out = some out') :
    Parsed f before (done ++ starts) out' := by
  induction starts generalizing done out with
  | nil =>
    rw [← Option.some.inj hall, append_nil]
    exact hparsed
  | cons i starts ih =>
    rw [parseAll] at hall
    dsimp only at hall
    by_cases hret : (parseSegment f (f.mem (i + 1)) (i + 4) (blen f i - 2) out).1 < 0
    · rw [if_pos hret] at hall
      exact absurd hall.symm (Option.some_ne_none out')
    rw [if_neg hret] at hall
    rw [append_cons]
    refine ih ?_ hall
    by_cases hmarker : f.mem (i + 1) = 0xC0
    · have hparse : parseSegment f (f.mem (i + 1)) (i + 4) (blen f i - 2) out =
          parseSof f (i + 4) out := by
        rw [hmarker]
        rfl
      rw [hparse] at hret ⊢
      exact hparsed.sof hmarker (sofRead_parseSof hret)
    · exact hparsed.keep hmarker (defines_parseSegment hmarker hret)

theorem nonneg_of_mem_segmentsFrom {fuel : ℕ} {j : ℤ} (hi : 0 ≤ i)
    (hj : j ∈ (segmentsFrom f fuel i).1) : 0 ≤ j := by
  induction fuel generalizing i with
  | zero => exact absurd hj not_mem_nil
  | succ fuel ih =>
    rw [segmentsFrom] at hj
    split_ifs at hj
    · exact absurd hj not_mem_nil
    · rcases mem_cons.mp hj with rfl | hj
      · exact hi
      · exact ih (by omega) hj
    · exact absurd hj not_mem_nil

/-- `jpeg_process_frame` returns nonzero. -/
def Accepts (f : Frame) (ms : ℕ) (out : RtpJpeg) : Prop := (jpegProcessFrame f ms out).1 ≠ 0

instance (f : Frame) (ms : ℕ) (out : RtpJpeg) : Decidable (Accepts f ms out) :=
  inferInstanceAs (Decidable (_ ≠ _))

/-- The state after an accepted frame. -/
theorem parsed_of_accepted {ms : ℕ} (haccepted : Accepts f ms before) :
    ∃ scan out, scanStart f = some scan ∧ 0 ≤ scan ∧ scan < f.length ∧
      Parsed f before (segments f) out ∧ jpegProcessFrame f ms before = startScan f ms scan out := by
  obtain ⟨scan, out, hscan, hlt, hle, hall, hwalk⟩ := jpegWalk_accepted haccepted
  refine ⟨scan, out, hscan, hle, hlt, ?_, hwalk⟩
  have hstart : Parsed f before [] { before with bHasDRI := false, quant := fun _ ↦ none } :=
    ⟨fun n ↦ by simp [RtpJpeg.quantAt, tables, lastTable], nofun, rfl, rfl, fun h ↦ absurd rfl h,
      fun h ↦ absurd rfl h, fun h ↦ absurd rfl h, nofun, nofun⟩
  exact parsed_parseAll hstart hall

/-! ### Frames that contain what is sent -/

/-- A table number is in range, and its pointer designates 64 bytes inside the frame. -/
def TableInside (f : Frame) (out : RtpJpeg) (n : ℤ) : Prop :=
  0 ≤ n ∧ n < 16 ∧ ∃ p, out.quantAt n = some p ∧ 0 ≤ p ∧ p + 64 ≤ f.length

/-- What `jpeg_send` relies on after a frame: a start of frame of this frame was parsed, and the
tables and the scan data lie inside the frame. -/
structure Sound (f : Frame) (after : RtpJpeg) : Prop where
  sof : ∃ i ∈ segments f, f.mem (i + 1) = 0xC0
  luma : TableInside f after after.lumaTable
  chroma : TableInside f after after.chromaTable
  scan : ∃ p, after.scanData = some p ∧ 0 ≤ p ∧ 0 ≤ after.scanDataLen ∧
    p + after.scanDataLen ≤ f.length

/-- The luma table in use: that of the last luma component of the frame, or the one that an earlier
frame has left. -/
def lumaInUse (f : Frame) (before : RtpJpeg) : ℤ :=
  ((lumas f (segments f)).getLast?.map fun luma ↦ (luma.2 : ℤ)).getD before.lumaTable

/-- The last table of the frame with the number `n`, if there is one, ends inside the frame. -/
def TableEnds (f : Frame) (n : ℤ) : Prop :=
  ∀ p, lastTable (tables f (segments f)) n = some p → p + 64 ≤ f.length

/-- What `jpeg_process_frame` does not check: some start of frame of the frame names the luma
component (or the frame defines the table that an earlier frame used), the last one names a chroma
component, and the two tables and the header of the scan end inside the frame. -/
structure Intact (f : Frame) (before : RtpJpeg) : Prop where
  luma : (∃ i ∈ sofs f (segments f), Names f i 1) ∨ ∃ p, (before.lumaTable, p) ∈ tables f (segments f)
  chroma : chromas f (segments f) ≠ []
  lumaEnds : TableEnds f (lumaInUse f before)
  chromaEnds : ∀ n, (chromas f (segments f)).getLast? = some n → TableEnds f n
  scan : ∀ i, scanStart f = some i → i + 2 + blen f i ≤ f.length

theorem lumas_ne_nil_iff (f : Frame) (starts : List ℤ) :
    lumas f starts ≠ [] ↔ ∃ i ∈ sofs f starts, Names f i 1 := by
  have hnil (i : ℤ) : [6, 9, 12].filterMap (lumaAt f (i + 4)) ≠ [] ↔ Names f i 1 := by
    rw [ne_eq, filterMap_eq_nil_iff, Names]
    simp only [not_forall, lumaAt, ite_eq_right_iff, reduceCtorEq, imp_false, not_not, exists_prop]
  rw [lumas, ne_eq, flatMap_eq_nil_iff]
  simp only [not_forall, exists_prop]
  exact exists_congr fun i ↦ and_congr_right fun _ ↦ hnil i

theorem lastTable_eq_none_iff {entries : List (ℤ × ℤ)} {n : ℤ} :
    lastTable entries n = none ↔ ∀ p, (n, p) ∉ entries := by
  rw [lastTable, lookup_eq_none_iff]
  constructor
  · intro hnone p hp
    exact absurd (hnone (n, p) (mem_reverse.mpr hp)) (by simp)
  · rintro hnone ⟨number, p⟩ hp
    rw [bne_iff_ne]
    rintro rfl
    exact hnone p (mem_reverse.mp hp)

theorem pos_of_mem_tablesFrom {len : ℤ} {fuel : ℕ} {table : ℤ × ℤ} (hd : 0 ≤ d) (hi : 0 ≤ i)
    (htable : table ∈ tablesFrom f d len fuel i) : 0 < table.2 := by
  induction fuel generalizing i with
  | zero => exact absurd htable not_mem_nil
  | succ fuel ih =>
    rw [tablesFrom] at htable
    split_ifs at htable
    · rcases mem_cons.mp htable with rfl | htable
      · dsimp only
        omega
      · exact ih (by omega) htable
    · exact absurd htable not_mem_nil

theorem lastTable_pos {n p : ℤ} (hp : lastTable (tables f (segments f)) n = some p) : 0 < p := by
  have hmem : (n, p) ∈ (tables f (segments f)).reverse := by
    obtain ⟨first, second, heq, -⟩ := lookup_eq_some_iff.mp hp
    rw [heq]
    exact mem_append_right _ mem_cons_self
  obtain ⟨i, hi, htable⟩ := mem_flatMap.mp (mem_reverse.mp hmem)
  have hpos := nonneg_of_mem_segmentsFrom (le_refl 0) hi
  rw [tablesAt] at htable
  split_ifs at htable
  · exact pos_of_mem_tablesFrom (by omega) (le_refl 0) htable
  · exact absurd htable not_mem_nil

/-- A table pointer of the state is that of the last table of the frame. -/
theorem Parsed.tableInside_iff (hparsed : Parsed f before (segments f) out) (n : ℤ) :
    TableInside f out n ↔ out.quantAt n ≠ none ∧ TableEnds f n := by
  rw [TableInside, TableEnds, ← hparsed.quant]
  constructor
  · rintro ⟨-, -, p, hp, -, hend⟩
    rw [hp]
    exact ⟨Option.some_ne_none p, fun p' hp' ↦ Option.some.inj hp' ▸ hend⟩
  · rintro ⟨hdefined, hends⟩
    obtain ⟨p, hp⟩ := Option.ne_none_iff_exists'.mp hdefined
    have hpos := lastTable_pos ((hparsed.quant n).symm.trans hp)
    have hend := hends p hp
    have hquant := hp
    unfold RtpJpeg.quantAt at hquant
    split_ifs at hquant with hlt hnonneg
    exact ⟨hnonneg, by omega, p, hp, by omega, hend⟩

/-- Everything that is sent of an accepted frame belongs to it exactly when the frame is intact. -/
theorem sound_iff_intact {ms : ℕ} (haccepted : Accepts f ms before) :
    Sound f (jpegProcessFrame f ms before).2 ↔ Intact f before := by
  obtain ⟨scan, out, hscan, hnonneg, hlt, hparsed, hwalk⟩ := parsed_of_accepted haccepted
  rw [hwalk]
  have hlumaTable : out.lumaTable = lumaInUse f before := hparsed.lumaTable
  have hluma : TableInside f out out.lumaTable ↔
      out.quantAt out.lumaTable ≠ none ∧ TableEnds f (lumaInUse f before) := by
    rw [hparsed.tableInside_iff, hlumaTable]
  have hchroma := hparsed.tableInside_iff out.chromaTable
  constructor
  · rintro ⟨⟨sof, hsof, hmarker⟩, hlumaIn, hchromaIn, hdata⟩
    obtain ⟨hdefined, hends⟩ := hluma.mp hlumaIn
    obtain ⟨-, hchromaEnds⟩ := hchroma.mp hchromaIn
    have hchromaTable := hparsed.chromaTable
      (ne_nil_of_mem (mem_filter.mpr ⟨hsof, decide_eq_true hmarker⟩))
    refine ⟨?_, ?_, hends, ?_, ?_⟩
    · by_cases hnamed : lumas f (segments f) = []
      · rw [hparsed.quant, hlumaTable, lumaInUse, hnamed, ne_eq, lastTable_eq_none_iff] at hdefined
        obtain ⟨p, hp⟩ := not_forall_not.mp hdefined
        exact Or.inr ⟨p, hp⟩
      · exact Or.inl ((lumas_ne_nil_iff f _).mp hnamed)
    · intro hnil
      rw [hnil] at hchromaTable
      have hpos : 0 ≤ out.chromaTable := hchromaIn.1
      rw [hchromaTable] at hpos
      exact absurd hpos (by decide)
    · intro n hn
      rw [hn] at hchromaTable
      rw [hchromaTable] at hchromaEnds
      exact hchromaEnds
    · intro i hi
      obtain rfl := Option.some.inj (hscan.symm.trans hi)
      obtain ⟨p, hp, hpos, hlen, hend⟩ := hdata
      simp only [startScan] at hlen
      omega
  · rintro ⟨hnamed, hnames, hends, hchromaEnds, hscanEnd⟩
    have hsofs : sofs f (segments f) ≠ [] := by
      intro hnil
      rw [chromas, hnil] at hnames
      exact hnames rfl
    refine ⟨?_, hluma.mpr ⟨?_, hends⟩, hchroma.mpr ⟨hparsed.chromaDefined hnames, ?_⟩, ?_⟩
    · obtain ⟨sof, hmem⟩ := exists_mem_of_ne_nil _ hsofs
      rw [sofs, mem_filter] at hmem
      exact ⟨sof, hmem.1, of_decide_eq_true hmem.2⟩
    · by_cases hnil : lumas f (segments f) = []
      · obtain ⟨p, hp⟩ := hnamed.resolve_left ((lumas_ne_nil_iff f _).not.mp (not_not.mpr hnil))
        rw [hparsed.quant, hlumaTable, lumaInUse, hnil, ne_eq, lastTable_eq_none_iff]
        exact fun hnone ↦ hnone p hp
      · exact hparsed.lumaDefined hnil
    · obtain ⟨n, hn⟩ : ∃ n, (chromas f (segments f)).getLast? = some n :=
        ⟨_, List.getLast?_eq_some_getLast hnames⟩
      rw [hparsed.chromaTable hsofs, hn]
      exact hchromaEnds n hn
    · have hend := hscanEnd scan hscan
      refine ⟨scan + 2 + blen f scan, rfl, by omega, ?_, ?_⟩
      · simp only [startScan]
        omega
      · simp only [startScan]
        omega

/-- The state after a sequence of frames, each with its time. -/
def processFrames (out : RtpJpeg) (frames : List (Frame × ℕ)) : RtpJpeg :=
  frames.foldl (fun out frame ↦ (jpegProcessFrame frame.1 frame.2 out).2) out

/-- In every sequence of frames, what is sent of the accepted frames belongs to them exactly when
the accepted frames are intact. -/
theorem accepted_frames_sound_iff (out : RtpJpeg) (frames : List (Frame × ℕ)) :
    (∀ earlier f ms later, frames = earlier ++ (f, ms) :: later →
        Accepts f ms (processFrames out earlier) →
          Sound f (jpegProcessFrame f ms (processFrames out earlier)).2) ↔
      ∀ earlier f ms later, frames = earlier ++ (f, ms) :: later →
        Accepts f ms (processFrames out earlier) →
          Intact f (processFrames out earlier) := by
  constructor
  · intro hsound earlier f ms later hframes haccepted
    exact (sound_iff_intact haccepted).mp (hsound earlier f ms later hframes haccepted)
  · intro hintact earlier f ms later hframes haccepted
    exact (sound_iff_intact haccepted).mpr (hintact earlier f ms later hframes haccepted)

/-- A frame in memory that is zero around it. -/
def Frame.ofBytes (bytes : { bytes : Bytes // bytes.length < 2147483648 }) : Frame where
  length := bytes.val.length
  mem k := if 0 ≤ k then bytes.val.getD k.toNat 0 else 0
  stray _ := 0
  timestamp := 0
  length_lt := bytes.property

/-- A `struct rtp_jpeg` in zeroed memory. -/
def blankJpeg : RtpJpeg := ⟨0, 0, 0, 0, 0, fun _ ↦ none, none, 0, false, 0, false, 0⟩

/-- SOI, and a scan of three bytes. -/
def bareBytes : Bytes := [0xFF, 0xD8, 0xFF, 0xDA, 0, 2, 1, 2, 3]

theorem length_bareBytes : bareBytes.length < 2147483648 := by decide

/-- A frame without tables and without a start of frame. -/
def bareFrame : Frame := .ofBytes ⟨bareBytes, length_bareBytes⟩

/-- A frame that consists of a scan only is accepted. -/
theorem bareFrame_unsound :
    Accepts bareFrame 0 (processFrames blankJpeg []) ∧
      ¬ Sound bareFrame (jpegProcessFrame bareFrame 0 (processFrames blankJpeg [])).2 := by
  refine ⟨by decide, fun hsound ↦ ?_⟩
  obtain ⟨i, hi, hmarker⟩ := hsound.sof
  have hsegments : segments bareFrame = [0] := by decide
  rw [hsegments, mem_singleton] at hi
  subst hi
  exact absurd hmarker (by decide)

/-! ### The layout of a picture -/

/-- What a start of frame says about a picture: its size in pixels and the luma sampling factor. -/
structure Layout where
  width : ℕ
  height : ℕ
  sampling : Option UInt8
  deriving DecidableEq

/-- The layout of a frame, if it has a start of frame. -/
def layout (f : Frame) : Option Layout :=
  (sofs f (segments f)).getLast?.map fun i ↦
    ⟨get16 (f.mem (i + 7)) (f.mem (i + 8)), get16 (f.mem (i + 5)) (f.mem (i + 6)),
      (lumas f (segments f)).getLast?.map Prod.fst⟩

/-- What the RTP header loses of a layout: the size above 2040 pixels, and whether the luma
component is sampled twice as often as the chroma components in the horizontal direction only. -/
def Layout.lost (picture : Layout) : ℕ × ℕ × Option Bool :=
  (picture.width / 2048, picture.height / 2048, picture.sampling.map (· == 0x21))

/-- The bytes of the RTP/JPEG header behind the fragment offset: type, Q, width and height. -/
def headerBytes (out : RtpJpeg) : Bytes := (vhdr out 0).drop 4

theorem ofInt_eq_iff {a b : ℤ} : UInt8.ofInt a = UInt8.ofInt b ↔ a % 256 = b % 256 := by
  rw [← toNat_ofInt, ← toNat_ofInt, Int.natCast_inj, UInt8.toNat_inj]

/-- A size of the picture is known from its header byte up to multiples of 2048. -/
theorem size_eq_iff {a b : ℕ} (ha : 8 ∣ a) (hb : 8 ∣ b)
    (hbyte : UInt8.ofInt (a / 8 : ℕ) = UInt8.ofInt (b / 8 : ℕ)) : a = b ↔ a / 2048 = b / 2048 := by
  rw [ofInt_eq_iff] at hbyte
  omega

theorem headerBytes_inj (hheader : headerBytes out = headerBytes out') :
    UInt8.ofInt (if out.bHasDRI then out.type + 64 else out.type) =
        UInt8.ofInt (if out'.bHasDRI then out'.type + 64 else out'.type) ∧
      UInt8.ofInt out.width = UInt8.ofInt out'.width ∧
      UInt8.ofInt out.height = UInt8.ofInt out'.height := by
  simp only [headerBytes, vhdr, drop_succ_cons, drop_zero, List.cons.injEq, true_and,
    and_true] at hheader
  exact hheader

/-- Luma sampling factors with the same type byte. -/
theorem sampling_eq_iff {a b : UInt8} (ha : ValidSampling a) (hb : ValidSampling b) {p q : Bool}
    (hbyte : UInt8.ofInt (if p then lumaType a + 64 else lumaType a) =
      UInt8.ofInt (if q then lumaType b + 64 else lumaType b)) :
    a = b ↔ (a == 0x21) = (b == 0x21) := by
  rcases ha with rfl | rfl | rfl <;> rcases hb with rfl | rfl | rfl <;> revert p q <;> decide

/-- Two accepted frames with the same type, width and height bytes have the same layout exactly when
they agree in what the header loses. -/
theorem same_layout_iff {f f' : Frame} {ms ms' : ℕ} {before before' : RtpJpeg}
    (haccepted : Accepts f ms before) (haccepted' : Accepts f' ms' before')
    (hheader : headerBytes (jpegProcessFrame f ms before).2 =
      headerBytes (jpegProcessFrame f' ms' before').2) :
    layout f = layout f' ↔ (layout f).map Layout.lost = (layout f').map Layout.lost := by
  obtain ⟨scan, out, -, -, -, hparsed, hwalk⟩ := parsed_of_accepted haccepted
  obtain ⟨scan', out', -, -, -, hparsed', hwalk'⟩ := parsed_of_accepted haccepted'
  rw [hwalk, hwalk'] at hheader
  obtain ⟨htype, hwidth, hheight⟩ := headerBytes_inj hheader
  dsimp only [startScan] at htype hwidth hheight
  cases hsof : (sofs f (segments f)).getLast? with
  | none =>
    cases hsof' : (sofs f' (segments f')).getLast? with
    | none => simp [layout, hsof, hsof']
    | some i' => simp [layout, hsof, hsof']
  | some i =>
    cases hsof' : (sofs f' (segments f')).getLast? with
    | none => simp [layout, hsof, hsof']
    | some i' =>
      obtain ⟨hw, hwdvd⟩ := hparsed.width i hsof
      obtain ⟨hw', hwdvd'⟩ := hparsed'.width i' hsof'
      obtain ⟨hh, hhdvd⟩ := hparsed.height i hsof
      obtain ⟨hh', hhdvd'⟩ := hparsed'.height i' hsof'
      rw [hw, hw'] at hwidth
      rw [hh, hh'] at hheight
      have hsampling : (lumas f (segments f)).getLast?.map Prod.fst =
          (lumas f' (segments f')).getLast?.map Prod.fst ↔
            ((lumas f (segments f)).getLast?.map Prod.fst).map (· == 0x21) =
              ((lumas f' (segments f')).getLast?.map Prod.fst).map (· == 0x21) := by
        rw [hparsed.type, hparsed'.type] at htype
        cases hluma : (lumas f (segments f)).getLast? with
        | none =>
          cases hluma' : (lumas f' (segments f')).getLast? <;> simp
        | some luma =>
          cases hluma' : (lumas f' (segments f')).getLast? with
          | none => simp
          | some luma' =>
            rw [hluma, hluma'] at htype
            have hvalid := hparsed.valid luma (mem_of_getLast? hluma)
            have hvalid' := hparsed'.valid luma' (mem_of_getLast? hluma')
            simpa using sampling_eq_iff hvalid hvalid' htype
      simp only [layout, hsof, hsof', Option.map_some, Option.some_inj, Layout.lost,
        Layout.mk.injEq, Prod.mk.injEq]
      rw [size_eq_iff hwdvd hwdvd' hwidth, size_eq_iff hhdvd hhdvd' hheight, hsampling]

/-- A picture of 16 by 16 pixels with one table: SOI, DQT, SOF with the given luma sampling factor,
and a scan of three bytes. -/
def pictureBytes (sampling : UInt8) : Bytes :=
  [0xFF, 0xD8] ++ ([0xFF, 0xDB, 0, 67, 0] ++ List.replicate 64 16) ++
    [0xFF, 0xC0, 0, 17, 8, 0, 16, 0, 16, 3, 1, sampling, 0, 2, 0x11, 0, 3, 0x11, 0] ++
    [0xFF, 0xDA, 0, 2, 1, 2, 3]

theorem length_pictureBytes (sampling : UInt8) : (pictureBytes sampling).length < 2147483648 := by
  simp [pictureBytes]

/-- The frame of a picture. -/
def pictureFrame (sampling : UInt8) : Frame :=
  .ofBytes ⟨pictureBytes sampling, length_pictureBytes sampling⟩

theorem pictureFrame_layout_iff :
    layout (pictureFrame 0x11) = layout (pictureFrame 0x21) ↔
      (layout (pictureFrame 0x11)).map Layout.lost = (layout (pictureFrame 0x21)).map Layout.lost :=
  @same_layout_iff (pictureFrame 0x11) (pictureFrame 0x21) 0 0 blankJpeg blankJpeg
    (by decide +kernel) (by decide +kernel) (by decide +kernel)

/-- A picture without chroma subsampling and one with horizontal subsampling get the same header. -/
theorem pictureFrame_layout_lost :
    Accepts (pictureFrame 0x11) 0 blankJpeg ∧ Accepts (pictureFrame 0x21) 0 blankJpeg ∧
      headerBytes (jpegProcessFrame (pictureFrame 0x11) 0 blankJpeg).2 =
        headerBytes (jpegProcessFrame (pictureFrame 0x21) 0 blankJpeg).2 ∧
      layout (pictureFrame 0x11) = some ⟨16, 16, some 0x11⟩ ∧
      layout (pictureFrame 0x21) = some ⟨16, 16, some 0x21⟩ := by
  decide +kernel

end WisCam.Rtp
