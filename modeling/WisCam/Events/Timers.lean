import WisCam.Events.Safety

/-!
# When a timer is due

A pass of `event_loop` marks the timers that are enabled, and in its timer phase it compares the
time of each marked timer with the clock: the callback is called when the difference that
`time_diff` computes is less than 5 milliseconds. The difference is computed in microseconds with
32 bits, so it is right only modulo `2 ^ 32` microseconds, which are 71 minutes and 35 seconds.

`exactDiff` is the difference without the overflow. `Timely` says of two times whether the overflow
leaves the decision as it is, and `timer_dispatch_iff` that an enabled timer is called as the exact
difference says exactly in this case. A timer that was disabled for 50 minutes and is enabled again
is not called, and one that is set for 50 minutes later is called at once
(`overdue_timer_not_called`).
-/

set_option autoImplicit false

namespace WisCam.Events

open Foundations List

/-! ### Exact differences -/

def TimeRef.micros (t : TimeRef) : ℤ := t.sec * 1000000 + t.usec

/-- `time_diff` without overflow. -/
def exactDiff (start finish : TimeRef) : ℤ := (finish.micros - start.micros + 500).tdiv 1000

/-- The overflow of `time_diff` does not change whether a timer is due. A timer is due from 5.5
milliseconds before its time on. The program finds it due in the first `2 ^ 31 + 4999` of every
`2 ^ 32` microseconds, counted from there. -/
def Timely (fire now : TimeRef) : Prop :=
  if fire.micros - 5500 < now.micros then
    (now.micros - fire.micros + 5499) % 4294967296 < 2147488647
  else 2147488647 ≤ (now.micros - fire.micros + 5499) % 4294967296

theorem timeDiff_eq (start finish : TimeRef) :
    timeDiff start finish =
      ((finish.micros - start.micros + 500).bmod 4294967296).tdiv 1000 := by
  have hmicros : (finish.sec - start.sec) * 1000000 + finish.usec - start.usec + 500 =
      finish.micros - start.micros + 500 := by
    unfold TimeRef.micros
    omega
  rw [timeDiff, hmicros]

/-- Division towards zero: less than 5 milliseconds are left down to 4999 microseconds. -/
theorem neg_tdiv_lt_iff (d : ℤ) : -d.tdiv 1000 < 5 ↔ -5000 < d := by
  rcases Int.le_total 0 d with hpos | hneg
  · rw [Int.tdiv_eq_ediv_of_nonneg hpos]
    omega
  · have hquotient : (-d).tdiv 1000 = -d / 1000 :=
      Int.tdiv_eq_ediv_of_nonneg (Int.neg_nonneg.mpr hneg)
    rw [Int.neg_tdiv] at hquotient
    omega

theorem exactDiff_lt_iff (fire now : TimeRef) :
    -exactDiff fire now < 5 ↔ fire.micros - 5500 < now.micros := by
  rw [exactDiff, neg_tdiv_lt_iff]
  omega

theorem timeDiff_lt_iff (fire now : TimeRef) :
    -timeDiff fire now < 5 ↔
      (now.micros - fire.micros + 5499) % 4294967296 < 2147488647 := by
  rw [timeDiff_eq, neg_tdiv_lt_iff, Int.bmod_def]
  split_ifs with hhalf
  · omega
  · omega

/-- Times that are less than 35 minutes and 47 seconds apart. -/
theorem timely_of_near {fire now : TimeRef} (hafter : now.micros - fire.micros < 2147483148)
    (hbefore : fire.micros - now.micros < 2147483648) : Timely fire now := by
  unfold Timely
  split_ifs with hdue
  · omega
  · omega

/-! ### Marked timers -/

variable {clock : ℕ → TimeRef} {s s' : Loop} {contents : Kind → List ℕ} {input : Input} {e : ℕ}

/-- Marking changes `EVENT_F_RUNNING` only. -/
theorem enabled_markEvent (x : ℕ) (m : Memory) :
    ((markEvent x m).flags e).enabled = (m.flags e).enabled := by
  rw [markEvent, Memory.flags_setFlags]
  split_ifs with hx
  · rw [hx]
  · rfl

/-- An event whose mark says whether it is enabled. -/
def Marked (m : Memory) (e : ℕ) : Prop := (m.flags e).running = (m.flags e).enabled

theorem marked_markEvent (m : Memory) (e : ℕ) : Marked (markEvent e m) e := by
  rw [Marked, markEvent, Memory.flags_setFlags, if_pos rfl]

theorem Marked.markEvent {m : Memory} (hmarked : Marked m e) (x : ℕ) :
    Marked (markEvent x m) e := by
  by_cases hx : e = x
  · rw [hx]
    exact marked_markEvent m x
  · rw [Marked, Events.markEvent, Memory.flags_setFlags, if_neg hx]
    exact hmarked

/-- The loop marks every event that it comes to. -/
theorem marked_forEvents {fuel : ℕ} {head : Option ℕ} {front rest : List ℕ} {m m' : Memory}
    (hlinked : Linked m.prev m.next head (front ++ rest)) (he : e ∈ rest)
    (hloop : forEvents markEvent fuel rest.head? m = some m') : Marked m' e := by
  induction rest generalizing m front fuel with
  | nil => cases he
  | cons x rest ih =>
    cases fuel with
    | zero => cases hloop
    | succ fuel =>
      have hsame := sameLinks_setFlags m x fun flags ↦ { flags with running := flags.enabled }
      have hafter : Linked (markEvent x m).prev (markEvent x m).next head
          (front ++ [x] ++ rest) := by
        rw [markEvent, hsame.prev, hsame.next, append_assoc]
        exact hlinked
      have hrest : forEvents markEvent fuel rest.head? (markEvent x m) = some m' := by
        rw [← hlinked.neighbours.2]
        exact hloop
      rcases mem_cons.mp he with rfl | he
      · exact forEvents_preserves (P := fun m ↦ Marked m e) (fun x m h ↦ h.markEvent x) hrest
          (marked_markEvent m e)
      · exact ih hafter he hrest

/-- After the loops before `select`, the timers in the list are marked if they are enabled. -/
theorem Shape.running_markEvents {m m' : Memory} (hshape : Shape m contents)
    (he : e ∈ contents .time) (hmark : markEvents m = some m') :
    (m'.flags e).running = (m.flags e).enabled := by
  have henabled : (m'.flags e).enabled = (m.flags e).enabled :=
    markEvents_preserves (P := fun m' ↦ (m'.flags e).enabled = (m.flags e).enabled)
      (fun x m h ↦ (enabled_markEvent x m).trans h) hmark rfl
  have hmarked : Marked m' e := by
    rw [markEvents] at hmark
    obtain ⟨m₁, hloop, hrest⟩ := Option.bind_eq_some_iff.mp hmark
    obtain ⟨m₂, hloop₂, hloop₃⟩ := Option.bind_eq_some_iff.mp hrest
    rw [(hshape.linked .time).head_eq] at hloop
    have hlinked : Linked m.prev m.next (m.list .time) ([] ++ contents .time) := hshape.linked .time
    have hfirst := marked_forEvents hlinked he hloop
    have hkeeps (x : ℕ) (m : Memory) (h : Marked m e) : Marked (markEvent x m) e := h.markEvent x
    exact forEvents_preserves hkeeps hloop₃ (forEvents_preserves hkeeps hloop₂ hfirst)
  rw [hmarked, henabled]

/-- A round of a walk changes no mark. -/
theorem running_visit (clock : ℕ → TimeRef) (kind : Kind) (x e : ℕ) (s : Loop) :
    ((visit clock kind x s).memory.flags e).running = (s.memory.flags e).running := by
  have hinvoke (kind : Kind) (s : Loop) :
      ((invoke kind x s).memory.flags e).running = (s.memory.flags e).running := by
    rw [invoke]
    dsimp only
    split
    · rw [Memory.flags_setFlags]
      split_ifs with hx
      · rw [hx]
      · rfl
    · rfl
  unfold visit
  dsimp only
  split
  · rfl
  · split
    · rfl
    · cases kind with
      | time =>
        dsimp only
        split
        · rw [invokeTimer]
          split
          · exact hinvoke .time _
          · refine (congrArg Flags.running (flags_reschedEvent clock x none _ e)).trans ?_
            split_ifs with hx
            · rw [hx]
              rfl
            · rfl
        · rfl
      | always => exact hinvoke .always s
      | fd =>
        dsimp only
        split
        · exact hinvoke .fd s
        · rfl

/-- A mark stays until the event is removed or the next pass begins. -/
theorem running_step (hinv : Inv s contents) (hrunning : (s.memory.flags e).running = true)
    (hbelow : e < s.memory.size) (hstep : Step clock input s s') (hbegins : ¬PassBegins (input, s))
    (hremove : input ≠ .op (.remove e)) :
    (s'.memory.flags e).running = true ∧ e < s'.memory.size := by
  cases hstep.moves with
  | enter single hphase => exact ⟨hrunning, hbelow⟩
  | select ret ready hphase hmark => exact absurd ⟨ret, ready, rfl⟩ hbegins
  | op op =>
    refine ⟨?_, Nat.lt_of_lt_of_le hbelow (size_le_perform clock op s.memory)⟩
    cases flagsChange_perform clock op hbelow with
    | same hflags =>
      rw [hflags]
      exact hrunning
    | revive hrevives hsame => exact hsame.trans hrunning
    | remove hop hflags => exact absurd (congrArg Input.op hop) hremove
  | done hphase => exact ⟨hrunning, hbelow⟩
  | visit hphase =>
    rename_i kind x
    rw [running_visit, (visit_sameLinks clock kind x s).size]
    exact ⟨hrunning, hbelow⟩
  | nextList kind hphase hhead => exact ⟨hrunning, hbelow⟩
  | finish hphase hfinish =>
    have hstrips := (finishPass_spec hinv.shape hfinish).1
    rw [hstrips.flags, hstrips.size]
    exact ⟨hrunning, hbelow⟩

theorem running_path {steps : List (Input × Loop)} (hpath : Path (Step clock) s steps s')
    (hinv : Inv s contents) (hrunning : (s.memory.flags e).running = true)
    (hbelow : e < s.memory.size) (hbegins : ∀ step ∈ steps, ¬PassBegins step)
    (hremove : ∀ step ∈ steps, step.1 ≠ .op (.remove e)) :
    (s'.memory.flags e).running = true := by
  induction hpath generalizing contents with
  | nil s => exact hrunning
  | cons hstep hrest ih =>
    rename_i input s s' s'' steps
    obtain ⟨hrunning', hbelow'⟩ := running_step hinv hrunning hbelow hstep
      (hbegins (input, s) mem_cons_self) (hremove (input, s) mem_cons_self)
    exact ih (hinv.step hstep) hrunning' hbelow'
      (fun step h ↦ hbegins step (mem_cons_of_mem _ h))
      fun step h ↦ hremove step (mem_cons_of_mem _ h)

/-! ### The timer phase -/

/-- What the loop does when it comes to a marked timer. -/
theorem invokes_timer_iff (hphase : s.phase = .dispatch .time (some e))
    (hrunning : (s.memory.flags e).running = true) (hloop : s.memory.endLoop = false) :
    Invokes clock (.advance, s) e ↔
      -timeDiff (s.memory.event e).fire (clock s.memory.readings) < 5 := by
  have hevent : ¬(!(s.memory.event e).flags.running) = true := by
    rw [Memory.flags] at hrunning
    rw [hrunning]
    decide
  have hstep : Events.step clock s .advance = some (visit clock .time e s) := by
    rw [step, hphase]
  unfold Invokes
  dsimp only
  simp only [hstep, Option.some.injEq, exists_and_left, exists_eq_left', true_and]
  unfold visit
  dsimp only
  rw [if_neg hevent, hloop, if_neg Bool.false_ne_true]
  split_ifs with hdue
  · refine iff_of_true ⟨.time, ?_⟩ hdue
    rw [invokeTimer]
    split
    · rfl
    · rfl
  · refine iff_of_false ?_ hdue
    rintro ⟨kind, hcallback⟩
    cases hcallback

/-- The loop over the timers is at an event, and has not yet been at the given one. -/
def Ahead (s : Loop) (contents : Kind → List ℕ) (e : ℕ) : Prop :=
  ∃ front x rest, contents .time = front ++ x :: rest ∧
    (s.phase = .dispatch .time (some x) ∧ e ∈ x :: rest ∨ s.phase = .callback .time x ∧ e ∈ rest)

theorem Ahead.phase_ne (hahead : Ahead s contents e) :
    s.phase ≠ .outside ∧ s.phase ≠ .top ∧ ∀ kind, s.phase ≠ .dispatch kind none := by
  obtain ⟨front, x, rest, -, ⟨hphase, -⟩ | ⟨hphase, -⟩⟩ := hahead
  · simp [hphase]
  · simp [hphase]

theorem ahead_next (hinv : Inv s contents) {front rest : List ℕ} {x : ℕ}
    (hcontents : contents .time = front ++ x :: rest) (he : e ∈ rest)
    (hphase : s'.phase = .dispatch .time (s.memory.next x)) : Ahead s' contents e := by
  have hlinked := hinv.shape.linked .time
  rw [hcontents] at hlinked
  cases rest with
  | nil => cases he
  | cons y rest =>
    refine ⟨front ++ [x], y, rest, by rw [hcontents, append_assoc]; rfl, .inl ⟨?_, he⟩⟩
    rw [hphase, hlinked.neighbours.2]
    rfl

/-- New events are linked before the one that the loop is at. -/
theorem Ahead.op {op : EventOp} (hahead : Ahead s contents e) (hphase : s'.phase = s.phase) :
    Ahead s' (op.track s.memory.size contents) e := by
  obtain ⟨front, x, rest, hcontents, hwhere⟩ := hahead
  rw [← hphase] at hwhere
  rw [EventOp.track]
  split
  · rename_i kind hadds
    by_cases hkind : kind = .time
    · refine ⟨s.memory.size :: front, x, rest, ?_, hwhere⟩
      rw [hkind, Function.update_self, hcontents]
      rfl
    · exact ⟨front, x, rest, by rw [Function.update_of_ne (Ne.symm hkind), hcontents], hwhere⟩
  · exact ⟨front, x, rest, hcontents, hwhere⟩

theorem Ahead.step (hinv : Inv s contents) (hahead : Ahead s contents e)
    (hstep : Step clock input s s') (hloop : s.memory.endLoop = false)
    (hnot : s.phase ≠ .dispatch .time (some e)) : Ahead s' (track contents (input, s)) e := by
  cases hstep.moves with
  | op op => exact hahead.op rfl
  | enter single hphase => exact absurd hphase hahead.phase_ne.1
  | select ret ready hphase hmark => exact absurd hphase hahead.phase_ne.2.1
  | nextList kind hphase hhead hend =>
    obtain ⟨kind', hend⟩ := hend
    exact absurd hend (hahead.phase_ne.2.2 kind')
  | finish hphase hfinish => exact absurd hphase (hahead.phase_ne.2.2 .fd)
  | done hphase =>
    obtain ⟨front, x, rest, hcontents, ⟨hwhere, -⟩ | ⟨hwhere, he⟩⟩ := hahead
    · simp [hphase] at hwhere
    · rw [hphase] at hwhere
      cases hwhere
      exact ahead_next hinv hcontents he rfl
  | visit hphase =>
    rename_i kind y
    obtain ⟨front, x, rest, hcontents, ⟨hwhere, he⟩ | ⟨hwhere, -⟩⟩ := hahead
    · rw [hphase] at hwhere hnot
      cases hwhere
      have hrest : e ∈ rest := (mem_cons.mp he).resolve_left fun h ↦ hnot (by rw [h])
      have htrack : track contents (.advance, s) = contents := by
        rw [track]
        exact if_neg (by rw [hphase]; simp)
      rw [htrack]
      cases visits clock .time y s with
      | next hnext hflags => exact ahead_next hinv hcontents hrest hnext
      | stop hstop hflags hends => rw [hloop] at hends; cases hends
      | call hcall hrunning hflags => exact ⟨front, y, rest, hcontents, .inr ⟨hcall, hrest⟩⟩
    · simp [hphase] at hwhere

/-- The loop does not come to its end before it has been at the event. -/
theorem Ahead.path {steps : List (Input × Loop)} (hpath : Path (Step clock) s steps s')
    (hinv : Inv s contents) (hahead : Ahead s contents e)
    (hloop : ∀ step ∈ steps, step.2.memory.endLoop = false)
    (hdone : s'.phase = .dispatch .time none) :
    ∃ step ∈ steps, step.2.phase = .dispatch .time (some e) := by
  induction hpath generalizing contents with
  | nil s => exact absurd hdone (hahead.phase_ne.2.2 .time)
  | cons hstep hrest ih =>
    rename_i input s s' s'' steps
    by_cases hnow : s.phase = .dispatch .time (some e)
    · exact ⟨(input, s), mem_cons_self, hnow⟩
    · obtain ⟨step, hmem, hthere⟩ := ih (hinv.step hstep)
        (hahead.step hinv hstep (hloop (input, s) mem_cons_self) hnow)
        (fun step h ↦ hloop step (mem_cons_of_mem _ h)) hdone
      exact ⟨step, mem_cons_of_mem _ hmem, hthere⟩

/-- The loop over the timers of a pass comes to every timer in the list. A timer that is enabled
when the pass begins, and not removed before the pass comes to it, is called as the exact difference
says exactly if the overflow does not change the decision. -/
theorem timer_dispatch_iff (clock : ℕ → TimeRef) (event : ℕ → Event)
    (steps : List (Input × Loop)) (top begun : Loop) (e : ℕ) (ret : ℤ) (ready : ℤ → Bool → Bool)
    (hpath : Path (Step clock) (initial event) steps top) (he : e ∈ contentsOf steps .time)
    (henabled : (top.memory.flags e).enabled = true)
    (hbegin : Step clock (.select ret ready) top begun) :
    (∀ later s, Path (Step clock) begun later s →
      (∀ step ∈ later, step.2.memory.endLoop = false) → s.phase = .dispatch .time none →
        ∃ step ∈ later, step.2.phase = .dispatch .time (some e)) ∧
    ∀ later s, Path (Step clock) begun later s → (∀ step ∈ later, ¬PassBegins step) →
      (∀ step ∈ later, step.1 ≠ .op (.remove e)) → s.phase = .dispatch .time (some e) →
        s.memory.endLoop = false →
        ((Invokes clock (.advance, s) e ↔
          -exactDiff (s.memory.event e).fire (clock s.memory.readings) < 5) ↔
            Timely (s.memory.event e).fire (clock s.memory.readings)) := by
  have hinv : Inv top (contentsOf steps) := (inv_initial event).path hpath
  have hafter := hinv.step hbegin
  have hstart : (begun.memory.flags e).running = true ∧ e < begun.memory.size ∧
      Ahead begun (contentsOf steps) e := by
    cases hbegin.moves with
    | select ret ready htop hmark =>
      rename_i m
      obtain ⟨m', hmark', hsame⟩ := hinv.shape.exists_markEvents
      rw [hmark] at hmark'
      cases hmark'
      refine ⟨(hinv.shape.running_markEvents he hmark).trans henabled, ?_, ?_⟩
      · show e < m.size
        rw [hsame.size]
        exact hinv.shape.below .time e he
      · obtain ⟨x, rest, hcontents⟩ := exists_cons_of_ne_nil (ne_nil_of_mem he)
        refine ⟨[], x, rest, hcontents, .inl ⟨?_, hcontents ▸ he⟩⟩
        have hhead := (hafter.shape.linked .time).head_eq
        exact congrArg (Phase.dispatch .time) (hhead.trans (congrArg head? hcontents))
  obtain ⟨hrunning, hbelow, hahead⟩ := hstart
  refine ⟨fun later s hlater hends hdone ↦ hahead.path hlater hafter hends hdone, ?_⟩
  intro later s hlater hpass hremove hphase hloop
  have hmarked := running_path hlater hafter hrunning hbelow hpass hremove
  rw [invokes_timer_iff hphase hmarked hloop, exactDiff_lt_iff, timeDiff_lt_iff, Timely]
  split_ifs with hdue
  · rw [iff_true_right hdue]
  · rw [iff_false_right hdue, Int.not_lt]

def timerAdded : Loop :=
  ⟨addTimerEvent stillClock 0 plainFlags sampleStart.memory, .outside, false, 0, fun _ _ ↦ false⟩

def timerEntered : Loop := ⟨timerAdded.memory, .top, true, 0, fun _ _ ↦ false⟩

theorem due_timer_called : ∃ s, s.phase = .dispatch .time (some 0) ∧
    Invokes stillClock (.advance, s) 0 ∧
    ∃ later s', Path (Step stillClock) s later s' ∧ s'.phase = .dispatch .time none ∧
      ∃ step ∈ later, step.2.phase = .dispatch .time (some 0) := by
  have hadd : Step stillClock (.op (.addTimer 0 plainFlags)) sampleStart timerAdded := rfl
  have henter : Step stillClock (.enter true) timerAdded timerEntered := rfl
  have hselect : (step stillClock timerEntered (.select 0 fun _ _ ↦ false)).map
      (fun s ↦ (s.phase, s.memory.endLoop, (s.memory.event 0).fire, (step stillClock s .advance).map
        fun s' ↦ (s'.memory.endLoop, (step stillClock s' .done).map Loop.phase))) =
        some (.dispatch .time (some 0), false, ⟨0, 0⟩,
          some (false, some (.dispatch .time none))) := by
    decide
  obtain ⟨s, hstep, hdata⟩ := Option.map_eq_some_iff.mp hselect
  simp only [Prod.mk.injEq, Option.map_eq_some_iff] at hdata
  obtain ⟨hphase, hloop, hfire, s', hcall, hloop', s'', hreturn, hend⟩ := hdata
  obtain ⟨hvisits, hdecides⟩ := timer_dispatch_iff stillClock _ _ timerEntered s 0 0 _
    (.cons hadd (.single henter)) (by decide) (by decide) hstep
  have hiff := hdecides [] s (.nil s) (fun _ h ↦ absurd h not_mem_nil)
    (fun _ h ↦ absurd h not_mem_nil) hphase hloop
  rw [hfire] at hiff
  have htimely : Timely ⟨0, 0⟩ (stillClock s.memory.readings) := by
    show Timely ⟨0, 0⟩ ⟨0, 0⟩
    exact timely_of_near (by decide) (by decide)
  have hdue : -exactDiff ⟨0, 0⟩ (stillClock s.memory.readings) < 5 := by
    show -exactDiff ⟨0, 0⟩ ⟨0, 0⟩ < 5
    decide
  have hpath : Path (Step stillClock) s [(.advance, s), (.done, s')] s'' :=
    .cons hcall (.single hreturn)
  exact ⟨s, hphase, (hiff.mpr htimely).mpr hdue, _, s'', hpath, hend,
    hvisits _ s'' hpath (by simp [hloop, hloop']) hend⟩

/-- A clock that goes on by 50 minutes after the timer has been added. -/
def lateClock (reading : ℕ) : TimeRef := if reading < 2 then ⟨1600000000, 0⟩ else ⟨1600003000, 0⟩

/-- A timer is added as in `new_rtp_endpoint`, and enabled again as in `send_rtp_packet`. -/
def enabledAgain : List Input :=
  [.op (.addTimer 5000 plainFlags), .op (.setEnabled 0 false), .op (.setEnabled 0 true),
    .enter true, .select 0 fun _ _ ↦ false]

/-- A timer that is enabled again 50 minutes later is overdue and not called. A timer that is set
for 50 minutes later is called at once. -/
theorem overdue_timer_not_called :
    (run lateClock enabledAgain sampleStart).map (fun s ↦ (s.phase, (s.memory.flags 0).enabled,
      (s.memory.event 0).fire, lateClock s.memory.readings)) =
        some (.dispatch .time (some 0), true, ⟨1600000005, 0⟩, ⟨1600003000, 0⟩) ∧
    -exactDiff ⟨1600000005, 0⟩ ⟨1600003000, 0⟩ < 5 ∧
    (run lateClock (enabledAgain ++ [.advance]) sampleStart).map Loop.phase =
      some (.dispatch .time none) ∧
    (run stillClock [.op (.addTimer 3000000 plainFlags), .enter true, .select 0 fun _ _ ↦ false,
      .advance] sampleStart).map Loop.phase = some (.callback .time 0) ∧
    ¬-exactDiff ⟨3000, 0⟩ ⟨0, 0⟩ < 5 := by
  decide

end WisCam.Events
