import WisCam.Rest.Escapes

/-!
# Refused updates

`configs_update` writes pair by pair. `updateLoop_eq_ok_iff` separates what it writes from what the
writes do to the file. The writes of the pairs before a refused one have been done when it is
refused, so the file stays as it was exactly if there are none (`refused_unchanged_iff`).
-/

set_option autoImplicit false

namespace WisCam.Rest

open Foundations List

/-! ### Planned writes and the file -/

section Replay

variable {σ : Type} {write : Bytes → Bytes → σ → Except Fault (ℤ × σ)}

theorem runWrites_append (front back : List (Bytes × Bytes)) (s : σ) :
    runWrites write (front ++ back) s =
      (runWrites write front s >>= fun result ↦
        if result.1 then runWrites write back result.2 else .ok (false, result.2)) := by
  induction front generalizing s with
  | nil => rfl
  | cons first rest ih =>
    obtain ⟨param, value⟩ := first
    rw [cons_append, runWrites, runWrites]
    cases write param value s with
    | error fault => rfl
    | ok result =>
      rw [ok_bind, ok_bind]
      dsimp only
      split
      · exact ih _
      · rfl

/-- The planned writes are those that the loop does, if it ends for another reason than a failed
write. -/
theorem updateLoop_eq_ok_iff {group : Group} {fuel : ℕ} {mem : Bytes} {s s' : σ} {reason : UpdateEnd}
    (hreason : reason ≠ .writeFailed) :
    updateLoop write group fuel mem s = .ok (reason, s') ↔
      ∃ list, plannedWrites group fuel mem = .ok (reason, list) ∧
        runWrites write list s = .ok (true, s') := by
  induction fuel generalizing mem s with
  | zero =>
    constructor
    · intro hend
      cases hend
    · rintro ⟨list, hplanned, -⟩
      cases hplanned
  | succ fuel ih =>
    rw [updateLoop, plannedWrites]
    cases pairAt group mem with
    | error fault =>
      constructor
      · intro hend
        cases hend
      · rintro ⟨list, hplanned, -⟩
        cases hplanned
    | ok step =>
      rw [ok_bind, ok_bind]
      cases step with
      | finished | refused =>
        dsimp only
        constructor
        · intro hend
          obtain ⟨rfl, rfl⟩ := Prod.mk.inj (Except.ok.inj hend)
          exact ⟨[], rfl, rfl⟩
        · rintro ⟨list, hplanned, hrun⟩
          obtain ⟨rfl, rfl⟩ := Prod.mk.inj (Except.ok.inj hplanned)
          obtain ⟨-, rfl⟩ := Prod.mk.inj (Except.ok.inj hrun)
          rfl
      | writes list next =>
        dsimp only
        constructor
        · intro hend
          obtain ⟨⟨written, s₁⟩, hrun, hend⟩ := bind_eq_ok_iff.mp hend
          cases written with
          | false => exact absurd (Prod.mk.inj (Except.ok.inj hend)).1.symm hreason
          | true =>
            obtain ⟨more, hplanned, hmore⟩ := ih.mp hend
            refine ⟨list ++ more, ?_, ?_⟩
            · rw [hplanned, ok_bind]
            · rw [runWrites_append, hrun, ok_bind]
              exact hmore
        · rintro ⟨all, hplanned, hrun⟩
          obtain ⟨⟨reason', more⟩, hnext, hall⟩ := bind_eq_ok_iff.mp hplanned
          obtain ⟨rfl, rfl⟩ := Prod.mk.inj (Except.ok.inj hall)
          rw [runWrites_append] at hrun
          obtain ⟨⟨written, s₁⟩, hlist, hmore⟩ := bind_eq_ok_iff.mp hrun
          cases written with
          | false => exact absurd (Prod.mk.inj (Except.ok.inj hmore)).1 Bool.false_ne_true
          | true =>
            rw [hlist, ok_bind]
            exact ih.mpr ⟨more, hnext, hmore⟩

end Replay

/-! ### Refused updates -/

/-- A pair was refused. -/
def UpdateEnd.Refuses (reason : UpdateEnd) : Prop := reason = .badEscape ∨ reason = .badName

theorem UpdateEnd.Refuses.ne_writeFailed {reason : UpdateEnd} (hrefuses : reason.Refuses) :
    reason ≠ .writeFailed := by
  rintro rfl
  rcases hrefuses with h | h <;> cases h

/-- The memory behind the name of the pair in a token. The value is the string there. -/
def Token.behind (token : Token) : Bytes :=
  let (start, name) := pairName token.text
  (token.text ++ 0 :: token.after).drop (start + name.length + 1)

/-- The escapes of the pair are malformed, or its name is not known. -/
def Token.Refused (group : Group) (token : Token) : Prop :=
  unescape (cstr token.behind) = none ∨ paramOf group (pairName token.text).2 = none

/-- The first pair of the query string is one to refuse. -/
def FirstRefused (group : Group) (mem : Bytes) : Prop :=
  ∃ token, strtokR mem = .ok (some token) ∧ token.Refused group

variable {group : Group} {token : Token} {list : List (Bytes × Bytes)}

/-- The writes of a pair. -/
def Token.Writes (group : Group) (token : Token) (list : List (Bytes × Bytes)) : Prop :=
  ∃ param value, (pairName token.text).2 ≠ [] ∧ paramOf group (pairName token.text).2 = some param ∧
    unescape (cstr token.behind) = some value ∧ (cstr token.behind).length < paramValSize ∧
    list = writesFor group (pairName token.text).2 param (cstr value)

/-- The memory of the pair with the name of the parameter, if the group has names of its own. -/
def Token.renamed (group : Group) (token : Token) (param : Bytes) : Except Fault Bytes :=
  let (start, name) := pairName token.text
  let mem := (token.text ++ 0 :: token.after).set (start + name.length) 0
  if group.names.isSome then overwrite mem start (param ++ [0]) else .ok mem

/-- Where `strtok_r` goes on in this memory. -/
def Token.resume (token : Token) : ℕ :=
  if token.cut then token.text.length + 1 else token.text.length

/-- What one turn of the loop does, by the text behind the name. -/
theorem pairIn_eq (group : Group) (token : Token) :
    pairIn group token =
      if (pairName token.text).2 = [] then .error .null
      else if 0 ∉ token.behind then .error .stray
      else if paramValSize ≤ (cstr token.behind).length then .error .overflow
      else
        match unescape (cstr token.behind), paramOf group (pairName token.text).2 with
        | none, _ => .ok (.refused .badEscape)
        | some _, none => .ok (.refused .badName)
        | some value, some param => token.renamed group param >>= fun mem ↦
          .ok (.writes (writesFor group (pairName token.text).2 param (cstr value))
            (mem.drop token.resume)) := by
  have hdrop (place : ℕ) : ((token.text ++ 0 :: token.after).set place 0).drop (place + 1) =
      (token.text ++ 0 :: token.after).drop (place + 1) := drop_set_of_lt (Nat.lt_succ_self _)
  unfold pairIn stringAt
  dsimp only
  rw [hdrop]
  refine if_congr Iff.rfl rfl ?_
  change (ite (0 ∈ token.behind) (Except.ok (cstr token.behind)) _ >>= _) = _
  by_cases hnul : 0 ∈ token.behind
  · rw [if_pos hnul, if_neg (not_not.mpr hnul), ok_bind]
    refine if_congr Iff.rfl rfl ?_
    cases unescape (cstr token.behind) with
    | none => rfl
    | some value =>
      cases paramOf group (pairName token.text).2 with
      | none => rfl
      | some param =>
        dsimp only [Token.renamed]
        split <;> rfl
  · rw [if_neg hnul, if_pos hnul]
    rfl

/-- What is done for a token: it is refused, or its writes are done. -/
theorem pairIn_eq_ok {step : PairStep} (hpair : pairIn group token = .ok step) :
    (∃ reason, step = .refused reason) ∧ token.Refused group ∨
      ∃ list next, step = .writes list next ∧ token.Writes group list := by
  rw [pairIn_eq] at hpair
  split_ifs at hpair with hname hnul hlong
  split at hpair
  · rename_i hescape
    exact .inl ⟨⟨_, (Except.ok.inj hpair).symm⟩, .inl hescape⟩
  · rename_i hparam
    exact .inl ⟨⟨_, (Except.ok.inj hpair).symm⟩, .inr hparam⟩
  · rename_i value param hvalue hparam
    obtain ⟨mem, -, hpair⟩ := bind_eq_ok_iff.mp hpair
    exact .inr ⟨_, _, (Except.ok.inj hpair).symm, param, value, hname, hparam, hvalue,
      Nat.lt_of_not_le hlong, rfl⟩

theorem Token.Writes.not_refused (hwrites : token.Writes group list) : ¬token.Refused group := by
  obtain ⟨param, value, -, hparam, hvalue, -, -⟩ := hwrites
  rintro (h | h)
  · rw [h] at hvalue
    cases hvalue
  · rw [h] at hparam
    cases hparam

theorem length_unescape_le {text value : Bytes} (hvalue : unescape text = some value) :
    value.length ≤ text.length := by
  have hencodes := unescape_eq_some_iff.mp hvalue
  induction hencodes with
  | nil => exact Nat.le_refl _
  | plain hplain hrest ih => exact Nat.succ_le_succ (ih (unescape_eq_some_iff.mpr hrest))
  | escaped hhigh hlow hrest ih =>
    have hle := ih (unescape_eq_some_iff.mpr hrest)
    simp only [length_cons]
    omega

/-- The names of pairs stand for parameters of the table. -/
theorem param_mem {name param : Bytes} (hnames : group.names.isSome)
    (hparam : paramOf group name = some param) : param ∈ group.params := by
  obtain ⟨names, hnames⟩ := Option.isSome_iff_exists.mp hnames
  rw [paramOf, hnames] at hparam
  obtain ⟨front, back, hsplit, -⟩ := List.lookup_eq_some_iff.mp hparam
  have hmem : (name, param) ∈ names := hsplit ▸ mem_append_right _ mem_cons_self
  have hall : ∀ pair ∈ names, pair.2 ∈ group.params := by
    cases group with
    | wifi =>
      obtain rfl := Option.some.inj hnames
      decide
    | stream =>
      obtain rfl := Option.some.inj hnames
      decide
    | nabto | apmsg | stamsg | apstamsg | version => cases hnames
  exact hall _ hmem

/-- What is known of a write: it has a name, and in a group with names of its own it is one for a
parameter of the table, with a value that fits. -/
def IsWrite (group : Group) (write : Bytes × Bytes) : Prop :=
  write.1 ≠ [] ∧ (group.names.isSome →
    write.1 ∈ group.params ∧ write.2.length ≤ 127 ∧ (0 : UInt8) ∉ write.2)

theorem Token.Writes.isWrite (hwrites : token.Writes group list) :
    list ≠ [] ∧ ∀ write ∈ list, IsWrite group write := by
  obtain ⟨param, value, hname, hparam, hvalue, hshort, rfl⟩ := hwrites
  have hown : IsWrite group (param, cstr value) := by
    constructor
    · cases hnames : group.names with
      | none =>
        rw [paramOf, hnames] at hparam
        exact Option.some.inj hparam ▸ hname
      | some names => exact (isParam_of_mem (param_mem (by rw [hnames]; rfl) hparam)).1
    · refine fun hnames ↦ ⟨param_mem hnames hparam, ?_, nul_notMem_cstr _⟩
      have hcut : (cstr value).length ≤ value.length := (List.takeWhile_prefix _).length_le
      exact Nat.le_of_lt_succ ((hcut.trans (length_unescape_le hvalue)).trans_lt hshort)
  unfold writesFor
  split
  · rename_i hkey
    obtain ⟨rfl, -⟩ := hkey
    refine ⟨cons_ne_nil _ _, ?_⟩
    simp only [forall_mem_cons]
    exact ⟨⟨by decide, fun _ ↦ by decide⟩, ⟨by decide, fun _ ↦ by decide⟩, hown,
      forall_mem_nil _⟩
  · exact ⟨cons_ne_nil _ _, fun write hwrite ↦ mem_singleton.mp hwrite ▸ hown⟩

/-- The writes that come before a refused pair: there are none exactly if it is the first one. -/
theorem plannedWrites_refused {fuel : ℕ} {mem : Bytes} {reason : UpdateEnd}
    (hrefuses : reason.Refuses)
    (hplanned : plannedWrites group fuel mem = .ok (reason, list)) :
    (list = [] ↔ FirstRefused group mem) ∧ ∀ write ∈ list, IsWrite group write := by
  induction fuel generalizing mem list with
  | zero => cases hplanned
  | succ fuel ih =>
    rw [plannedWrites] at hplanned
    obtain ⟨step, hstep, hplanned⟩ := bind_eq_ok_iff.mp hplanned
    obtain ⟨token, htoken, hstep⟩ := bind_eq_ok_iff.mp hstep
    cases token with
    | none =>
      obtain rfl := Except.ok.inj hstep
      obtain ⟨rfl, -⟩ := Prod.mk.inj (Except.ok.inj hplanned)
      rcases hrefuses with h | h <;> cases h
    | some token =>
      have hfirst : FirstRefused group mem ↔ token.Refused group := by
        rw [FirstRefused, htoken]
        simp
      rw [hfirst]
      obtain ⟨⟨reason', rfl⟩, hrefused⟩ | ⟨first, next, rfl, hwrites⟩ := pairIn_eq_ok hstep
      · obtain ⟨-, rfl⟩ := Prod.mk.inj (Except.ok.inj hplanned)
        exact ⟨iff_of_true rfl hrefused, forall_mem_nil _⟩
      · obtain ⟨⟨reason', more⟩, hmore, hall⟩ := bind_eq_ok_iff.mp hplanned
        obtain ⟨rfl, rfl⟩ := Prod.mk.inj (Except.ok.inj hall)
        obtain ⟨hne, hfirst⟩ := hwrites.isWrite
        exact ⟨iff_of_false (append_ne_nil_of_left_ne_nil hne _) hwrites.not_refused,
          forall_mem_append.mpr ⟨hfirst, (ih hmore).2⟩⟩

/-! ### Files that are changed -/

theorem runWrites_emptyFile (list : List (Bytes × Bytes)) :
    runWrites writeParamStr list ⟨some [], true⟩ = .ok (true, ⟨some [], true⟩) := by
  induction list with
  | nil => rfl
  | cons first rest ih => exact ih

/-- A file with a single NUL is empty after the first write. -/
theorem runWrites_nulFile (hlist : ∀ write ∈ list, IsWrite group write) (hne : list ≠ []) :
    runWrites writeParamStr list ⟨some [0], true⟩ = .ok (true, ⟨some [], true⟩) := by
  obtain ⟨⟨param, value⟩, rest, rfl⟩ := exists_cons_of_ne_nil hne
  have hparam : param ≠ [] := (hlist _ mem_cons_self).1
  have hline : rewriteLine param value [0] = [] := by
    rw [rewriteLine, if_neg]
    · rfl
    · rw [strstr_eq_zero_iff]
      exact fun hstarts ↦ hparam (prefix_nil.mp hstarts)
  have hwrite : writeParamStr param value ⟨some [0], true⟩ = .ok (0, ⟨some [], true⟩) := by
    have hlines : lines readBufSize [0] = [[0]] := rfl
    rw [writeParamStr]
    dsimp only
    rw [hlines, if_pos (by decide), rewriteFile, hlines, map_singleton, hline]
    rfl
  rw [runWrites, hwrite, ok_bind]
  exact runWrites_emptyFile rest

variable {param value text : Bytes}

/-- The text that is printed for a parameter of a table fits into the line buffer. -/
theorem isText_paramText (hparam : IsParam param) (hvalue : value.length ≤ 127)
    (hnul : (0 : UInt8) ∉ value) : IsText (paramText param value) := by
  refine ⟨nul_paramText hparam hnul, fun line hline hfull ↦ ?_⟩
  have hlength : line.length ≤ (paramText param value).length := by
    have hflat : (lines readBufSize (paramText param value)).flatten.length =
        (paramText param value).length := by rw [flatten_lines, length_map]
    rw [← hflat]
    exact (sublist_flatten_of_mem hline).length_le
  have hshort := hparam.2.1
  rw [hfull, readBufSize, paramText] at hlength
  split at hlength <;> simp only [length_append, length_cons, length_nil] at hlength <;>
    omega

theorem writeParamStr_text (htext : IsText text) :
    writeParamStr param value ⟨some text, true⟩ =
      .ok (0, ⟨some (rewriteFile param value text), true⟩) := by
  rw [writeParamStr]
  dsimp only
  rw [if_pos htext.short]

/-- A rewritten file has no NUL: lines are copied as strings. -/
theorem nul_rewriteFile (hparam : (0 : UInt8) ∉ param) (hvalue : (0 : UInt8) ∉ value) :
    (0 : UInt8) ∉ rewriteFile param value text := by
  intro hmem
  obtain ⟨line, hline, hzero⟩ := mem_flatten.mp hmem
  obtain ⟨source, -, rfl⟩ := mem_map.mp hline
  unfold rewriteLine at hzero
  split at hzero
  · unfold paramText at hzero
    split at hzero <;> simp [hparam, hvalue] at hzero
  · exact nul_notMem_cstr _ hzero

/-- A file stays a text if a parameter is written to it. -/
theorem IsText.rewriteFile (htext : IsText text) (hparam : IsParam param)
    (hvalue : value.length ≤ 127) (hnul : (0 : UInt8) ∉ value) :
    IsText (rewriteFile param value text) := by
  refine ⟨nul_rewriteFile (fun h ↦ (hparam.2.2 0 h).2.2 rfl) hnul, ?_⟩
  rw [lines_rewrite (htext.rewritable param)]
  intro line hline
  obtain ⟨source, hsource, hline⟩ := mem_flatMap.mp hline
  split at hline
  · exact (isText_paramText hparam hvalue hnul).short line hline
  · rw [mem_singleton.mp hline]
    exact htext.short source hsource

/-- A line feed stays, and there is one in a line that is replaced. -/
theorem feed_rewriteFile (htext : IsText text) (param value : Bytes)
    (hfeed : 10 ∈ text ∨ ∃ line ∈ lines readBufSize text, param <+: line) :
    10 ∈ rewriteFile param value text := by
  have hprinted : (10 : UInt8) ∈ paramText param value :=
    mem_of_getLast? (endsLine_paramText param value)
  have hline : ∃ line ∈ lines readBufSize text, 10 ∈ line ∨ param <+: line := by
    rcases hfeed with hfeed | ⟨line, hline, hstarts⟩
    · have hmem : (10 : UInt8) ∈ (lines readBufSize text).flatten := by
        rw [flatten_lines]
        exact mem_map.mpr ⟨10, hfeed, rfl⟩
      obtain ⟨line, hline, hfeed⟩ := mem_flatten.mp hmem
      exact ⟨line, hline, .inl hfeed⟩
    · exact ⟨line, hline, .inr hstarts⟩
  obtain ⟨line, hline, hcase⟩ := hline
  refine mem_flatten.mpr ⟨_, mem_map_of_mem hline, ?_⟩
  rw [rewriteLine_eq ((htext.rewritable param).replaced line hline)]
  split
  · exact hprinted
  · exact hcase.resolve_right ‹_›

/-- Writes of a group with names of its own succeed on a text, and leave the line feeds. -/
theorem runWrites_text (hnames : group.names.isSome) (hlist : ∀ write ∈ list, IsWrite group write)
    (htext : IsText text) (hfeed : 10 ∈ text) :
    ∃ text', runWrites writeParamStr list ⟨some text, true⟩ = .ok (true, ⟨some text', true⟩) ∧
      10 ∈ text' := by
  induction list generalizing text with
  | nil => exact ⟨text, rfl, hfeed⟩
  | cons first rest ih =>
    obtain ⟨param, value⟩ := first
    obtain ⟨hfirst, hrest⟩ := forall_mem_cons.mp hlist
    obtain ⟨hparam, hvalue, hnul⟩ := hfirst.2 hnames
    rw [runWrites, writeParamStr_text htext, ok_bind]
    exact ih hrest (htext.rewriteFile (isParam_of_mem hparam) hvalue hnul)
      (feed_rewriteFile htext param value (.inl hfeed))

/-- A file with the name of the parameter that is written first, and nothing else, is changed. -/
theorem runWrites_nameFile (hnames : group.names.isSome)
    (hlist : ∀ write ∈ list, IsWrite group write) (hne : list ≠ []) :
    ∃ text text', IsText text ∧ text' ≠ text ∧
      runWrites writeParamStr list ⟨some text, true⟩ = .ok (true, ⟨some text', true⟩) := by
  obtain ⟨⟨param, value⟩, rest, rfl⟩ := exists_cons_of_ne_nil hne
  obtain ⟨hfirst, hrest⟩ := forall_mem_cons.mp hlist
  obtain ⟨hparam, hvalue, hnul⟩ := hfirst.2 hnames
  have hname := isParam_of_mem hparam
  have hplain (b : UInt8) (hb : isSpace b = true) : b ∉ param := fun hmem ↦
    Bool.false_ne_true ((hname.2.2 b hmem).1.symm.trans hb)
  have hline : IsLine readBufSize param := ⟨hname.1, Nat.lt_of_le_of_lt hname.2.1 (by decide),
    hplain 13 rfl, fun hmem ↦ hplain 10 rfl (dropLast_subset _ hmem)⟩
  have hlines : lines readBufSize param = [param] := lines_of_isLine hline
  have htext : IsText param := by
    refine ⟨fun hmem ↦ (hname.2.2 0 hmem).2.2 rfl, ?_⟩
    rw [hlines, forall_mem_singleton]
    exact Nat.ne_of_lt hline.short
  obtain ⟨text', hrun, hfeed⟩ := runWrites_text hnames hrest
    (htext.rewriteFile hname hvalue hnul) (feed_rewriteFile htext param value
      (.inr ⟨param, by rw [hlines]; exact mem_singleton_self _, prefix_rfl⟩))
  refine ⟨param, text', htext, fun hsame ↦ hplain 10 rfl (hsame ▸ hfeed), ?_⟩
  rw [runWrites, writeParamStr_text htext, ok_bind]
  exact hrun

/-- If the update is refused, for one file at least: it leaves the file as it was, whatever the
file, exactly if the first pair is the refused one. In a group with names of its own there is
otherwise a text file that is changed. -/
theorem refused_unchanged_iff {group : Group} {mem : Bytes} {reason : UpdateEnd} {s₀ s₁ : Storage}
    (hrefuses : reason.Refuses)
    (hrefused : configsUpdate writeParamStr group mem s₀ = .ok (reason, s₁)) :
    ((∀ s s', configsUpdate writeParamStr group mem s = .ok (reason, s') → s' = s) ↔
        FirstRefused group mem) ∧
      (group.names.isSome → ¬FirstRefused group mem → ∃ text text', IsText text ∧ text' ≠ text ∧
        configsUpdate writeParamStr group mem ⟨some text, true⟩ =
          .ok (reason, ⟨some text', true⟩)) := by
  obtain ⟨list, hplanned, -⟩ := (updateLoop_eq_ok_iff hrefuses.ne_writeFailed).mp hrefused
  obtain ⟨hfirst, hlist⟩ := plannedWrites_refused hrefuses hplanned
  have hupdate {s s' : Storage} (hrun : runWrites writeParamStr list s = .ok (true, s')) :
      configsUpdate writeParamStr group mem s = .ok (reason, s') :=
    (updateLoop_eq_ok_iff hrefuses.ne_writeFailed).mpr ⟨list, hplanned, hrun⟩
  rw [← hfirst]
  refine ⟨⟨fun hsame ↦ ?_, ?_⟩, fun hnames hne ↦ ?_⟩
  · by_contra hne
    exact absurd (hsame _ _ (hupdate (runWrites_nulFile hlist hne))) (by decide)
  · rintro rfl s s' hupdate
    obtain ⟨list, hlist, hrun⟩ := (updateLoop_eq_ok_iff hrefuses.ne_writeFailed).mp hupdate
    obtain ⟨-, rfl⟩ := Prod.mk.inj (Except.ok.inj (hplanned.symm.trans hlist))
    exact (Prod.mk.inj (Except.ok.inj hrun)).2.symm
  · obtain ⟨text, text', htext, hchanged, hrun⟩ := runWrites_nameFile hnames hlist hne
    exact ⟨text, text', htext, hchanged, hupdate hrun⟩

/-- A stream configuration. -/
def streamFile : Storage := ⟨some (ascii "VINWIDTH 640\nVINHEIGHT 360\nBITRATE 1024\n"), true⟩

/-- A query string that is refused at its first pair. -/
def refusedFirst : Bytes := ascii "bit_rate=2048&vin_width=1280" ++ 0 :: ascii "HTTP/1.1"

/-- A query string that is refused at its second pair. -/
def refusedSecond : Bytes := ascii "vin_width=1280&bit_rate=2048" ++ 0 :: ascii "HTTP/1.1"

theorem refused_unchanged_first :
    configsUpdate writeParamStr .stream refusedFirst streamFile = .ok (.badName, streamFile) ∧
      ∀ s s', configsUpdate writeParamStr .stream refusedFirst s = .ok (.badName, s') → s' = s := by
  have hrefused : configsUpdate writeParamStr .stream refusedFirst streamFile =
      .ok (.badName, streamFile) := by decide +kernel
  refine ⟨hrefused, (refused_unchanged_iff (.inr rfl) hrefused).1.mpr ⟨_, rfl, .inr ?_⟩⟩
  decide +kernel

/-- The width is written although the second pair is refused. -/
theorem refused_after_write :
    configsUpdate writeParamStr .stream refusedSecond streamFile = .ok (.badName,
      ⟨some (ascii "VINWIDTH 1280\nVINHEIGHT 360\nBITRATE 1024\n"), true⟩) := by
  decide +kernel

end WisCam.Rest
