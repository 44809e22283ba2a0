import WisCam.Events.Lists

/-!
# Removed and new events

What callbacks may rely on, whatever else the callbacks do. A removed event is not called again and
is out of its list after the next end of a pass, unless it is brought back by `resched_event`,
`set_event_enabled` or `set_event_interval`. A new event is not called before the next pass begins,
unless `EVENT_F_RUNNING`, the flag of the loop itself, is among the flags that it is added with. The
lists are well formed at any time, and they consist of the events that were added and not yet taken
out. `event_loop_safe` is the result; `running_event_called_at_once` shows the case of the flag.
-/

set_option autoImplicit false

namespace WisCam.Events

open Foundations List

/-! ### Histories -/

def PassEnds (step : Input × Loop) : Prop :=
  step.1 = .advance ∧ step.2.phase = .dispatch .fd none

def PassBegins (step : Input × Loop) : Prop := ∃ ret ready, step.1 = .select ret ready

def Invokes (clock : ℕ → TimeRef) (step : Input × Loop) (e : ℕ) : Prop :=
  step.1 = .advance ∧
    ∃ s' kind, Events.step clock step.2 .advance = some s' ∧ s'.phase = .callback kind e

/-- The contents of the lists after a step: a new event is added, and at the end of a pass the
events with `EVENT_F_REMOVE` are taken out. -/
def track (contents : Kind → List ℕ) (step : Input × Loop) : Kind → List ℕ :=
  match step.1 with
  | .op op => op.track step.2.memory.size contents
  | .advance =>
    if step.2.phase = .dispatch .fd none then fun kind ↦ kept step.2.memory (contents kind)
    else contents
  | _ => contents

/-- The events that were added to a list and not yet taken out. -/
def contentsOf (steps : List (Input × Loop)) : Kind → List ℕ := steps.foldl track fun _ ↦ []

def EventOp.Revives (op : EventOp) (e : ℕ) : Prop :=
  match op with
  | .resched x _ => x = e
  | .setInterval x _ => x = e
  | .setEnabled x _ => x = e
  | _ => False

def Input.Revives (input : Input) (e : ℕ) : Prop :=
  match input with
  | .op call => call.Revives e
  | _ => False

/-- The flags that an event is added with. -/
def EventOp.newFlags : EventOp → Option Flags
  | .addTimer _ flags => some flags
  | .addAlarm _ flags => some flags
  | .addFd _ _ flags => some flags
  | .addAlways flags => some flags
  | _ => none

/-! ### What a step does -/

variable {clock : ℕ → TimeRef} {s s' : Loop} {contents : Kind → List ℕ} {input : Input} {e : ℕ}

/-- The steps, each with what it needs. -/
inductive Moves (clock : ℕ → TimeRef) : Input → Loop → Loop → Prop
  | enter {s : Loop} (single : Bool) (hphase : s.phase = .outside) :
      Moves clock (.enter single) s
        { s with memory := { s.memory with endLoop := false }, phase := .top, single := single }
  | select {s : Loop} {m : Memory} (ret : ℤ) (ready : ℤ → Bool → Bool) (hphase : s.phase = .top)
      (hmark : markEvents s.memory = some m) :
      Moves clock (.select ret ready) s
        { s with memory := m, phase := .dispatch .time (m.list .time), ret := ret, ready := ready }
  | op {s : Loop} (op : EventOp) : Moves clock (.op op) s { s with memory := op.perform clock s.memory }
  | done {s : Loop} {kind : Kind} {e : ℕ} (hphase : s.phase = .callback kind e) :
      Moves clock .done s { s with phase := .dispatch kind (s.memory.next e) }
  | visit {s : Loop} {kind : Kind} {e : ℕ} (hphase : s.phase = .dispatch kind (some e)) :
      Moves clock .advance s (visit clock kind e s)
  | nextList {s : Loop} (kind : Kind) {head : Option ℕ} (hphase : s.phase ≠ .dispatch .fd none)
      (hhead : ∀ e, head = some e → s.memory.list kind = some e)
      (hend : ∃ kind, s.phase = .dispatch kind none) :
      Moves clock .advance s { s with phase := .dispatch kind head }
  | finish {s s' : Loop} (hphase : s.phase = .dispatch .fd none) (hfinish : finishPass s = some s') :
      Moves clock .advance s s'

theorem Step.moves (hstep : Step clock input s s') : Moves clock input s s' := by
  rw [Step] at hstep
  cases input with
  | enter single =>
    rw [step] at hstep
    split at hstep
    · rename_i hphase
      cases hstep
      exact .enter single hphase
    · cases hstep
  | select ret ready =>
    rw [step] at hstep
    split at hstep
    · rename_i hphase
      cases hmark : markEvents s.memory with
      | none =>
        rw [hmark] at hstep
        cases hstep
      | some m =>
        rw [hmark] at hstep
        cases hstep
        exact .select ret ready hphase hmark
    · cases hstep
  | op op =>
    rw [step] at hstep
    split at hstep
    · cases hstep
      exact .op op
    · cases hstep
      exact .op op
    · cases hstep
  | done =>
    rw [step] at hstep
    split at hstep
    · rename_i hphase
      cases hstep
      exact .done hphase
    · cases hstep
  | advance =>
    rw [step] at hstep
    split at hstep
    · rename_i hphase
      cases hstep
      exact .visit hphase
    · rename_i hphase
      cases hstep
      exact .nextList .always (by rw [hphase]; decide) (fun e h ↦ h) ⟨_, hphase⟩
    · rename_i hphase
      cases hstep
      refine .nextList .fd (by rw [hphase]; decide) ?_ ⟨_, hphase⟩
      intro e h
      split at h
      · exact h
      · cases h
    · rename_i hphase
      exact .finish hphase hstep
    · cases hstep

/-- A round of the loop over a list: it goes on to the next event, to the end of the list, or to the
callback of the event, which is marked. Of the flags only those of the event in the last case can
change. -/
inductive Visits (kind : Kind) (e : ℕ) (s s' : Loop) : Prop
  | next (hphase : s'.phase = .dispatch kind (s.memory.next e))
      (hflags : s'.memory.flags = s.memory.flags)
  | stop (hphase : s'.phase = .dispatch kind none) (hflags : s'.memory.flags = s.memory.flags)
      (hloop : s.memory.endLoop = true)
  | call (hphase : s'.phase = .callback kind e) (hrunning : (s.memory.flags e).running = true)
      (hflags : ∀ x ≠ e, s'.memory.flags x = s.memory.flags x)

theorem visit_sameLinks (clock : ℕ → TimeRef) (kind : Kind) (e : ℕ) (s : Loop) :
    SameLinks s.memory (visit clock kind e s).memory := by
  have hinvoke (kind : Kind) (s : Loop) : SameLinks s.memory (invoke kind e s).memory := by
    rw [invoke]
    dsimp only
    split
    · exact sameLinks_setFlags s.memory e _
    · exact SameLinks.refl s.memory
  have hread (m : Memory) : SameLinks m { m with readings := m.readings + 1 } :=
    ⟨rfl, rfl, rfl, rfl⟩
  unfold visit
  dsimp only
  split
  · exact SameLinks.refl s.memory
  · split
    · exact SameLinks.refl s.memory
    · cases kind with
      | time =>
        dsimp only
        split
        · refine (hread s.memory).trans ?_
          rw [invokeTimer]
          split
          · exact hinvoke .time
              { s with memory := { s.memory with readings := s.memory.readings + 1 } }
          · exact sameLinks_reschedEvent clock e none _
        · exact hread s.memory
      | always => exact hinvoke .always s
      | fd =>
        dsimp only
        split
        · exact hinvoke .fd s
        · exact SameLinks.refl s.memory

theorem flags_reschedEvent (clock : ℕ → TimeRef) (e : ℕ) (tr : Option TimeRef) (m : Memory) (x : ℕ) :
    (reschedEvent clock e tr m).flags x =
      if x = e then { m.flags e with remove := false, enabled := true } else m.flags x := by
  rw [reschedEvent, Memory.flags_setFlags, flags_setFire]

theorem visits (clock : ℕ → TimeRef) (kind : Kind) (e : ℕ) (s : Loop) :
    Visits kind e s (visit clock kind e s) := by
  have hinvoke (kind : Kind) (s : Loop) (x : ℕ) (hx : x ≠ e) :
      (invoke kind e s).memory.flags x = s.memory.flags x := by
    rw [invoke]
    dsimp only
    split
    · rw [Memory.flags_setFlags, if_neg hx]
    · rfl
  by_cases hrunning : (s.memory.flags e).running = true
  · have hevent : ¬(!(s.memory.event e).flags.running) = true := by
      rw [Memory.flags] at hrunning
      rw [hrunning]
      decide
    unfold visit
    dsimp only
    rw [if_neg hevent]
    split
    · rename_i hloop
      exact .stop rfl rfl hloop
    · cases kind with
      | time =>
        dsimp only
        split
        · rw [invokeTimer]
          split
          · exact .call rfl hrunning fun x hx ↦ hinvoke .time _ x hx
          · refine .call rfl hrunning fun x hx ↦ ?_
            exact (flags_reschedEvent clock e none _ x).trans (if_neg hx)
        · exact .next rfl rfl
      | always => exact .call rfl hrunning fun x hx ↦ hinvoke .always s x hx
      | fd =>
        dsimp only
        split
        · exact .call rfl hrunning fun x hx ↦ hinvoke .fd s x hx
        · exact .next rfl rfl
  · have hevent : (!(s.memory.event e).flags.running) = true := by
      rw [Memory.flags, Bool.not_eq_true] at hrunning
      rw [hrunning]
      rfl
    unfold visit
    dsimp only
    rw [if_pos hevent]
    exact .next rfl rfl

/-- The end of a pass: the lists keep the events without `EVENT_F_REMOVE`. -/
theorem exists_finishPass (hshape : Shape s.memory contents) :
    ∃ s', finishPass s = some s' ∧
      Strips s.memory s'.memory (fun kind ↦ kept s.memory (contents kind)) ∧
      (s'.phase = .top ∨ s'.phase = .outside) := by
  obtain ⟨m₁, hloop₁, hshape₁, hflags₁, hsize₁⟩ := hshape.exists_stripEvents .time
  obtain ⟨m₂, hloop₂, hshape₂, hflags₂, hsize₂⟩ := hshape₁.exists_stripEvents .fd
  obtain ⟨m₃, hloop₃, hshape₃, hflags₃, hsize₃⟩ := hshape₂.exists_stripEvents .always
  refine ⟨{ s with memory := m₃, phase := if !m₃.endLoop && !s.single then .top else .outside }, ?_,
    ⟨?_, (hflags₃.trans hflags₂).trans hflags₁, (hsize₃.trans hsize₂).trans hsize₁⟩, ?_⟩
  · rw [finishPass, hloop₁]
    show (stripEvents .fd m₁ >>= _) = _
    rw [hloop₂]
    show (stripEvents .always m₂ >>= _) = _
    rw [hloop₃]
    rfl
  · have hcontents : Function.update (Function.update (Function.update contents .time
          (kept s.memory (contents .time))) .fd (kept m₁ (contents .fd))) .always
          (kept m₂ (contents .always)) = fun kind ↦ kept s.memory (contents kind) := by
      rw [kept_congr hflags₁, kept_congr (hflags₂.trans hflags₁)]
      funext kind
      cases kind with
      | time => rfl
      | always => rfl
      | fd => rfl
    rw [← hcontents]
    exact hshape₃
  · dsimp only
    split
    · exact Or.inl rfl
    · exact Or.inr rfl

theorem finishPass_spec (hshape : Shape s.memory contents) (hfinish : finishPass s = some s') :
    Strips s.memory s'.memory (fun kind ↦ kept s.memory (contents kind)) ∧
      (s'.phase = .top ∨ s'.phase = .outside) := by
  obtain ⟨last, hlast, hspec⟩ := exists_finishPass hshape
  rw [hfinish] at hlast
  cases hlast
  exact hspec

/-- A round of a walk keeps the flags of an event that is not marked. -/
theorem flags_visit_of_idle (clock : ℕ → TimeRef) (kind : Kind) (x : ℕ)
    (hidle : (s.memory.flags e).running = false) :
    (visit clock kind x s).memory.flags e = s.memory.flags e := by
  cases visits clock kind x s with
  | next hgoes hflags => exact congrFun hflags e
  | stop hstops hflags => exact congrFun hflags e
  | call hcalls hrunning hflags =>
    apply hflags
    intro h
    rw [← h, hidle] at hrunning
    cases hrunning

/-! ### The lists in every state -/

/-- The lists have the given contents, and a walk is at an event of its list. -/
structure Inv (s : Loop) (contents : Kind → List ℕ) : Prop where
  shape : Shape s.memory contents
  cursor : ∀ kind e, s.phase = .dispatch kind (some e) ∨ s.phase = .callback kind e →
    e ∈ contents kind

variable {m : Memory} {kind : Kind}

theorem Shape.next_mem (hshape : Shape m contents) {x : ℕ} (he : e ∈ contents kind)
    (hnext : m.next e = some x) : x ∈ contents kind := by
  obtain ⟨front, back, hsplit⟩ := append_of_mem he
  have hlinked := hshape.linked kind
  rw [hsplit] at hlinked ⊢
  rw [hlinked.neighbours.2] at hnext
  exact mem_append_right _ (mem_cons_of_mem _ (mem_of_mem_head? hnext))

variable {op : EventOp}

theorem EventOp.mem_track {size : ℕ} (he : e ∈ contents kind) :
    e ∈ op.track size contents kind := by
  rw [EventOp.track]
  cases op.adds with
  | none => exact he
  | some kind' =>
    by_cases hkind : kind = kind'
    · subst hkind
      simp only [Function.update_self]
      exact mem_cons_of_mem _ he
    · simp only [Function.update_of_ne hkind]
      exact he

/-- Between the walks there is no event to be at. -/
theorem inv_of_rest (hshape : Shape s.memory contents)
    (hphase : s.phase = .top ∨ s.phase = .outside) : Inv s contents := by
  refine ⟨hshape, ?_⟩
  intro kind e h
  rcases hphase with hphase | hphase <;> rw [hphase] at h <;> rcases h with h | h <;> cases h

variable {cursor : Option ℕ}

theorem inv_of_dispatch (hshape : Shape s.memory contents)
    (hphase : s.phase = .dispatch kind cursor)
    (hcursor : ∀ e, cursor = some e → e ∈ contents kind) : Inv s contents := by
  refine ⟨hshape, ?_⟩
  intro kind' e h
  rw [hphase] at h
  rcases h with h | h
  · obtain ⟨rfl, hsome⟩ := Phase.dispatch.inj h
    exact hcursor e hsome
  · cases h

theorem inv_of_callback (hshape : Shape s.memory contents) (hphase : s.phase = .callback kind e)
    (he : e ∈ contents kind) : Inv s contents := by
  refine ⟨hshape, ?_⟩
  intro kind' e' h
  rw [hphase] at h
  rcases h with h | h
  · cases h
  · cases h
    exact he

theorem Inv.step (hinv : Inv s contents) (hstep : Step clock input s s') :
    Inv s' (track contents (input, s)) := by
  obtain ⟨hshape, hcursor⟩ := hinv
  cases hstep.moves with
  | enter single hphase =>
    exact inv_of_rest (hshape.of_sameLinks ⟨rfl, rfl, rfl, rfl⟩) (Or.inl rfl)
  | select ret ready hphase hmark =>
    obtain ⟨m', hmark', hsame⟩ := hshape.exists_markEvents
    rw [hmark] at hmark'
    cases hmark'
    have hshape' := hshape.of_sameLinks hsame
    exact inv_of_dispatch hshape' rfl fun e hhead ↦ hshape'.head_mem hhead
  | op op =>
    refine ⟨hshape.perform clock op, ?_⟩
    intro kind e h
    exact EventOp.mem_track (hcursor kind e h)
  | done hphase =>
    exact inv_of_dispatch hshape rfl fun e hnext ↦
      hshape.next_mem (hcursor _ _ (Or.inr hphase)) hnext
  | visit hphase =>
    rename_i kind x
    have hx := hcursor kind x (Or.inl hphase)
    have hshape' := hshape.of_sameLinks (visit_sameLinks clock kind x s)
    have htrack : track contents (.advance, s) = contents :=
      if_neg (by rw [hphase]; intro h; cases h)
    rw [htrack]
    cases visits clock kind x s with
    | next hnext hflags => exact inv_of_dispatch hshape' hnext fun e h ↦ hshape.next_mem hx h
    | stop hstop hflags =>
      apply inv_of_dispatch hshape' hstop
      intro e h
      cases h
    | call hcall hrunning hflags => exact inv_of_callback hshape' hcall hx
  | nextList kind hphase hhead =>
    have htrack : track contents (.advance, s) = contents := if_neg hphase
    rw [htrack]
    exact inv_of_dispatch hshape rfl fun e hsome ↦ hshape.head_mem (hhead e hsome)
  | finish hphase hfinish =>
    obtain ⟨hstrips, hend⟩ := finishPass_spec hshape hfinish
    have htrack : track contents (.advance, s) = fun kind ↦ kept s.memory (contents kind) :=
      if_pos hphase
    rw [htrack]
    exact inv_of_rest hstrips.shape hend

variable {steps : List (Input × Loop)}

theorem Inv.path (hpath : Path (Step clock) s steps s') (hinv : Inv s contents) :
    Inv s' (steps.foldl track contents) := by
  induction hpath generalizing contents with
  | nil s => exact hinv
  | cons hstep hrest ih => exact ih (hinv.step hstep)

theorem inv_initial (event : ℕ → Event) : Inv (initial event) fun _ ↦ [] := by
  refine inv_of_rest ⟨fun kind ↦ linked_nil, ?_, ?_⟩ (Or.inr rfl)
  · intro kind e he
    cases he
  · intro kind kind' e he
    cases he

/-! ### A pass comes to its end -/

/-- If the callbacks return at once, the program comes to a state with the property. -/
def LeadsTo (clock : ℕ → TimeRef) (s : Loop) (P : Loop → Prop) : Prop :=
  ∃ steps s', Path (Step clock) s steps s' ∧
    (∀ step ∈ steps, step.1 = .advance ∨ step.1 = .done) ∧ P s'

variable {P : Loop → Prop}

theorem leadsTo_refl (hs : P s) : LeadsTo clock s P :=
  ⟨[], s, .nil s, fun _ h ↦ absurd h not_mem_nil, hs⟩

theorem leadsTo_step (hinput : input = .advance ∨ input = .done) (hstep : Step clock input s s')
    (hleads : LeadsTo clock s' P) : LeadsTo clock s P := by
  obtain ⟨steps, last, hpath, hinputs, hlast⟩ := hleads
  refine ⟨_, last, .cons hstep hpath, ?_, hlast⟩
  intro step hmem
  rcases mem_cons.mp hmem with rfl | hmem
  · exact hinput
  · exact hinputs step hmem

theorem LeadsTo.trans {Q : Loop → Prop} (hleads : LeadsTo clock s P)
    (hnext : ∀ s', P s' → LeadsTo clock s' Q) : LeadsTo clock s Q := by
  obtain ⟨steps, middle, hpath, hinputs, hmiddle⟩ := hleads
  obtain ⟨steps', last, hpath', hinputs', hlast⟩ := hnext middle hmiddle
  refine ⟨steps ++ steps', last, hpath.append hpath', ?_, hlast⟩
  intro step hmem
  rcases mem_append.mp hmem with hmem | hmem
  · exact hinputs step hmem
  · exact hinputs' step hmem

theorem Inv.visit (clock : ℕ → TimeRef) (hinv : Inv s contents)
    (hphase : s.phase = .dispatch kind (some e)) :
    Step clock .advance s (visit clock kind e s) ∧ Inv (visit clock kind e s) contents := by
  have hvisit : Step clock .advance s (Events.visit clock kind e s) := by
    rw [Step, Events.step, hphase]
  have hnot : ¬s.phase = .dispatch .fd none := by
    rw [hphase]
    intro h
    cases h
  have hafter := hinv.step hvisit
  rw [track, if_neg hnot] at hafter
  exact ⟨hvisit, hafter⟩

/-- The loop over a list comes to its end. -/
theorem Inv.walk {front rest : List ℕ} (hinv : Inv s contents)
    (hcontents : contents kind = front ++ rest) (hphase : s.phase = .dispatch kind rest.head?) :
    LeadsTo clock s fun s' ↦ Inv s' contents ∧ s'.phase = .dispatch kind none := by
  induction rest generalizing s front with
  | nil => exact leadsTo_refl ⟨hinv, hphase⟩
  | cons e rest ih =>
    obtain ⟨hvisit, hafter⟩ := hinv.visit clock hphase
    have hlinked := hinv.shape.linked kind
    rw [hcontents] at hlinked
    have hnext : s.memory.next e = rest.head? := hlinked.neighbours.2
    rw [append_cons] at hcontents
    refine leadsTo_step (Or.inl rfl) hvisit ?_
    cases visits clock kind e s with
    | next hgoes hflags => exact ih hafter hcontents (hgoes.trans (congrArg _ hnext))
    | stop hstops hflags => exact leadsTo_refl ⟨hafter, hstops⟩
    | call hcalls hrunning hflags =>
      have hdone : Step clock .done (Events.visit clock kind e s)
          { Events.visit clock kind e s with
            phase := .dispatch kind ((Events.visit clock kind e s).memory.next e) } := by
        rw [Step, Events.step, hcalls]
        rfl
      refine leadsTo_step (Or.inr rfl) hdone (ih (hafter.step hdone) hcontents ?_)
      have hgoes : (Events.visit clock kind e s).memory.next e = rest.head? := by
        rw [(visit_sameLinks clock kind e s).next, hnext]
      exact congrArg (Phase.dispatch kind) hgoes

theorem Inv.walk_from (hinv : Inv s contents) (hphase : s.phase = .dispatch kind cursor) :
    LeadsTo clock s fun s' ↦ Inv s' contents ∧ s'.phase = .dispatch kind none := by
  cases cursor with
  | none => exact leadsTo_refl ⟨hinv, hphase⟩
  | some e =>
    obtain ⟨front, back, hsplit⟩ := append_of_mem (hinv.cursor kind e (Or.inl hphase))
    exact hinv.walk hsplit hphase

/-- From the end of one list the program goes on to the next one. -/
theorem Inv.next_list {kind' : Kind} (hinv : Inv s contents)
    (hphase : s.phase = .dispatch kind none)
    (hkinds : kind = .time ∧ kind' = .always ∨ kind = .always ∧ kind' = .fd) :
    LeadsTo clock s fun s' ↦ Inv s' contents ∧ s'.phase = .dispatch kind' none := by
  have hnot : ¬s.phase = .dispatch .fd none := by
    rw [hphase]
    rcases hkinds with ⟨rfl, -⟩ | ⟨rfl, -⟩
    · decide
    · decide
  obtain ⟨cursor, hstep⟩ : ∃ cursor,
      Step clock .advance s { s with phase := .dispatch kind' cursor } := by
    rcases hkinds with ⟨rfl, rfl⟩ | ⟨rfl, rfl⟩
    · exact ⟨s.memory.list .always, by rw [Step, Events.step, hphase]⟩
    · exact ⟨if s.ret > 0 then s.memory.list .fd else none, by rw [Step, Events.step, hphase]⟩
  have hafter := hinv.step hstep
  rw [track, if_neg hnot] at hafter
  exact leadsTo_step (Or.inl rfl) hstep (hafter.walk_from rfl)

/-- A pass comes to its end, if the callbacks return. -/
theorem Inv.pass_ends (hinv : Inv s contents) (hphase : s.phase = .dispatch kind cursor) :
    LeadsTo clock s fun s' ↦ s'.phase = .dispatch .fd none ∧ ∃ s'', Step clock .advance s' s'' := by
  have hlast : ∀ s', Inv s' contents ∧ s'.phase = .dispatch .fd none →
      LeadsTo clock s' fun s' ↦ s'.phase = .dispatch .fd none ∧ ∃ s'', Step clock .advance s' s'' := by
    rintro s' ⟨hinv', hphase'⟩
    obtain ⟨s'', hfinish, -⟩ := exists_finishPass hinv'.shape
    refine leadsTo_refl ⟨hphase', s'', ?_⟩
    rw [Step, Events.step, hphase']
    exact hfinish
  refine (hinv.walk_from hphase).trans ?_
  rintro s₁ ⟨hinv₁, hphase₁⟩
  cases kind with
  | fd => exact hlast s₁ ⟨hinv₁, hphase₁⟩
  | always => exact (hinv₁.next_list hphase₁ (Or.inr ⟨rfl, rfl⟩)).trans hlast
  | time =>
    refine (hinv₁.next_list hphase₁ (Or.inl ⟨rfl, rfl⟩)).trans ?_
    rintro s₂ ⟨hinv₂, hphase₂⟩
    exact (hinv₂.next_list hphase₂ (Or.inr ⟨rfl, rfl⟩)).trans hlast

/-! ### Flags of an event -/

/-- What holds of an event after `remove_event`. -/
structure Removed (m : Memory) (e : ℕ) : Prop where
  disabled : (m.flags e).enabled = false
  idle : (m.flags e).running = false
  remove : (m.flags e).remove = true
  below : e < m.size

theorem size_perform (clock : ℕ → TimeRef) (op : EventOp) (m : Memory) :
    (op.perform clock m).size = if op.adds = none then m.size else m.size + 1 := by
  cases op with
  | addTimer msec flags =>
    refine (sameLinks_reschedEvent clock m.size none _).size.trans ?_
    exact (list_addEvent .time flags _ m).2
  | addAlarm t flags =>
    refine (sameLinks_reschedEvent clock m.size (some t) _).size.trans ?_
    exact (list_addEvent .time _ id m).2
  | addFd fd write flags =>
    show (addFdEvent fd write flags m).size = _
    rw [addFdEvent, (list_addEvent ..).2]
    rfl
  | addAlways flags =>
    show (addAlwaysEvent flags m).size = _
    rw [addAlwaysEvent, (list_addEvent ..).2]
    rfl
  | resched x tr => exact (sameLinks_reschedEvent clock x tr m).size
  | remove x => rfl
  | setInterval x msec =>
    show (setEventInterval clock x msec m).size = m.size
    rw [setEventInterval]
    split
    · rw [(sameLinks_reschedEvent clock x none _).size]
      rfl
    · rfl
  | setEnabled x enabled => rfl
  | exitLoop => rfl

/-- What a call does to the flags of an event that was added before. -/
inductive FlagsChange (op : EventOp) (e : ℕ) (before after : Flags) : Prop
  | same (hflags : after = before)
  | revive (hop : op.Revives e) (hrunning : after.running = before.running)
  | remove (hop : op = .remove e)
      (hflags : after = { before with remove := true, running := false, enabled := false })

/-- A call that changes the flags of one event. -/
theorem flagsChange_one {x : ℕ} {before after changed : Flags}
    (hflags : after = if e = x then changed else before)
    (hchange : e = x → FlagsChange op e before changed) : FlagsChange op e before after := by
  by_cases hx : e = x
  · rw [if_pos hx] at hflags
    rw [hflags]
    exact hchange hx
  · rw [if_neg hx] at hflags
    exact .same hflags

theorem flagsChange_perform (clock : ℕ → TimeRef) (op : EventOp) (he : e < m.size) :
    FlagsChange op e (m.flags e) ((op.perform clock m).flags e) := by
  have hne : e ≠ m.size := Nat.ne_of_lt he
  cases op with
  | addTimer msec flags =>
    apply FlagsChange.same
    show (addTimerEvent clock msec flags m).flags e = _
    rw [addTimerEvent, flags_reschedEvent, if_neg hne]
    exact (flags_addEvent ..).trans (if_neg hne)
  | addAlarm t flags =>
    apply FlagsChange.same
    show (addAlarmEvent clock t flags m).flags e = _
    rw [addAlarmEvent, flags_reschedEvent, if_neg hne, flags_addEvent, if_neg hne]
  | addFd fd write flags =>
    apply FlagsChange.same
    show (addFdEvent fd write flags m).flags e = _
    rw [addFdEvent, flags_addEvent, if_neg hne]
  | addAlways flags =>
    apply FlagsChange.same
    show (addAlwaysEvent flags m).flags e = _
    rw [addAlwaysEvent, flags_addEvent, if_neg hne]
  | resched x tr =>
    apply flagsChange_one (flags_reschedEvent clock x tr m e)
    rintro rfl
    exact .revive rfl rfl
  | remove x =>
    show FlagsChange _ e _ ((removeEvent x m).flags e)
    rw [removeEvent]
    apply flagsChange_one (m.flags_setFlags x e _)
    rintro rfl
    exact .remove rfl rfl
  | setInterval x msec =>
    have hival : (m.modify x fun event ↦ { event with ival := msec }).flags = m.flags :=
      funext fun y ↦ m.member_modify x y Event.flags
        (f := fun event ↦ { event with ival := msec }) fun _ ↦ rfl
    show FlagsChange _ e _ ((setEventInterval clock x msec m).flags e)
    rw [setEventInterval]
    split
    · rw [← hival]
      apply flagsChange_one (flags_reschedEvent clock x none _ e)
      rintro rfl
      exact .revive rfl rfl
    · exact .same (congrFun hival e)
  | setEnabled x enabled =>
    show FlagsChange _ e _ ((setEventEnabled x enabled m).flags e)
    rw [setEventEnabled]
    apply flagsChange_one (m.flags_setFlags x e _)
    rintro rfl
    exact .revive rfl rfl
  | exitLoop => exact .same rfl

theorem size_le_perform (clock : ℕ → TimeRef) (op : EventOp) (m : Memory) :
    m.size ≤ (op.perform clock m).size := by
  rw [size_perform]
  split
  · exact Nat.le_refl _
  · exact Nat.le_succ _

theorem removed_removeEvent (he : e < m.size) : Removed (removeEvent e m) e := by
  have hflags : (removeEvent e m).flags e =
      { m.flags e with remove := true, running := false, enabled := false } := by
    rw [removeEvent, Memory.flags_setFlags, if_pos rfl]
  refine ⟨?_, ?_, ?_, he⟩
  · rw [hflags]
  · rw [hflags]
  · rw [hflags]

variable {m' : Memory}

theorem Removed.of_flags (hremoved : Removed m e) (hflags : m'.flags e = m.flags e)
    (hsize : m.size ≤ m'.size) : Removed m' e := by
  obtain ⟨hdisabled, hidle, hremove, hbelow⟩ := hremoved
  rw [← hflags] at hdisabled hidle hremove
  exact ⟨hdisabled, hidle, hremove, Nat.lt_of_lt_of_le hbelow hsize⟩

theorem Removed.perform (hremoved : Removed m e) (hop : ¬op.Revives e) :
    Removed (op.perform clock m) e := by
  have hsize := size_le_perform clock op m
  cases flagsChange_perform clock op hremoved.below with
  | same hflags => exact hremoved.of_flags hflags hsize
  | revive hrevives hrunning => exact absurd hrevives hop
  | remove hop hflags =>
    rw [hop]
    exact removed_removeEvent hremoved.below

/-- A loop over a list preserves what its body preserves. -/
theorem forEvents_preserves {body : ℕ → Memory → Memory} {P : Memory → Prop}
    (hbody : ∀ x m, P m → P (body x m)) {fuel : ℕ} (hloop : forEvents body fuel cursor m = some m')
    (hm : P m) : P m' := by
  induction fuel generalizing cursor m with
  | zero =>
    cases cursor with
    | none =>
      cases hloop
      exact hm
    | some x => cases hloop
  | succ fuel ih =>
    cases cursor with
    | none =>
      cases hloop
      exact hm
    | some x => exact ih hloop (hbody x m hm)

theorem markEvents_preserves {P : Memory → Prop} (hbody : ∀ x m, P m → P (markEvent x m))
    (hmark : markEvents m = some m') (hm : P m) : P m' := by
  rw [markEvents] at hmark
  cases hloop₁ : forEvents markEvent m.size (m.list .time) m with
  | none =>
    rw [hloop₁] at hmark
    cases hmark
  | some m₁ =>
    rw [hloop₁] at hmark
    change (forEvents markEvent m₁.size (m₁.list .always) m₁ >>= _) = _ at hmark
    cases hloop₂ : forEvents markEvent m₁.size (m₁.list .always) m₁ with
    | none =>
      rw [hloop₂] at hmark
      cases hmark
    | some m₂ =>
      rw [hloop₂] at hmark
      have hm₂ := forEvents_preserves hbody hloop₂ (forEvents_preserves hbody hloop₁ hm)
      exact forEvents_preserves hbody hmark hm₂

/-- An event that is not enabled is not marked. -/
theorem Removed.markEvent (hremoved : Removed m e) (x : ℕ) : Removed (markEvent x m) e := by
  have hflags : (Events.markEvent x m).flags e =
      if e = x then { m.flags x with running := (m.flags x).enabled } else m.flags e := by
    rw [Events.markEvent, Memory.flags_setFlags]
  by_cases hx : e = x
  · subst hx
    rw [if_pos rfl] at hflags
    refine ⟨?_, ?_, ?_, hremoved.below⟩
    · rw [hflags]
      exact hremoved.disabled
    · rw [hflags]
      exact hremoved.disabled
    · rw [hflags]
      exact hremoved.remove
  · rw [if_neg hx] at hflags
    exact hremoved.of_flags hflags (Nat.le_refl _)

theorem Removed.step (hinv : Inv s contents) (hremoved : Removed s.memory e)
    (hstep : Step clock input s s') (hinput : ¬input.Revives e) : Removed s'.memory e := by
  cases hstep.moves with
  | enter single hphase => exact hremoved.of_flags rfl (Nat.le_refl _)
  | select ret ready hphase hmark =>
    exact markEvents_preserves (P := fun m ↦ Removed m e) (fun x m h ↦ h.markEvent x) hmark hremoved
  | op op => exact hremoved.perform hinput
  | done hphase => exact hremoved
  | visit hphase =>
    rename_i kind x
    have hsize := Nat.le_of_eq (visit_sameLinks clock kind x s).size.symm
    exact hremoved.of_flags (flags_visit_of_idle clock kind x hremoved.idle) hsize
  | nextList kind hphase hhead => exact hremoved
  | finish hphase hfinish =>
    have hstrips := (finishPass_spec hinv.shape hfinish).1
    exact hremoved.of_flags (congrFun hstrips.flags e) (Nat.le_of_eq hstrips.size.symm)

/-- Only marked events are called. -/
theorem running_of_invokes (hinv : Inv s contents) (hinvokes : Invokes clock (input, s) e) :
    (s.memory.flags e).running = true := by
  obtain ⟨-, s', kind, hstep, hphase⟩ := hinvokes
  have hmoves := Step.moves (show Step clock .advance s s' from hstep)
  cases hmoves with
  | visit hdispatch =>
    rename_i kind' x
    cases visits clock kind' x s with
    | next hgoes hflags =>
      rw [hgoes] at hphase
      cases hphase
    | stop hstops hflags =>
      rw [hstops] at hphase
      cases hphase
    | call hcalls hrunning hflags =>
      rw [hcalls] at hphase
      cases hphase
      exact hrunning
  | nextList kind' hnot hhead => cases hphase
  | finish hdispatch hfinish =>
    rcases (finishPass_spec hinv.shape hfinish).2 with hend | hend
    · rw [hend] at hphase
      cases hphase
    · rw [hend] at hphase
      cases hphase

/-! ### Removed events -/

theorem notMem_track (he : e < s.memory.size) (hout : ∀ kind, e ∉ contents kind) (kind : Kind) :
    e ∉ track contents (input, s) kind := by
  cases input with
  | enter single => exact hout kind
  | select ret ready => exact hout kind
  | done => exact hout kind
  | op op =>
    show e ∉ op.track s.memory.size contents kind
    rw [EventOp.track]
    cases op.adds with
    | none => exact hout kind
    | some kind' =>
      by_cases hkind : kind = kind'
      · subst hkind
        simp only [Function.update_self, mem_cons, not_or]
        exact ⟨Nat.ne_of_lt he, hout kind⟩
      · simp only [Function.update_of_ne hkind]
        exact hout kind
  | advance =>
    rw [track]
    dsimp only
    split
    · exact fun h ↦ hout kind (mem_filter.mp h).1
    · exact hout kind

/-- At the end of a pass a removed event is taken out. -/
theorem Removed.notMem_track (hremoved : Removed s.memory e) (hends : PassEnds (input, s))
    (kind : Kind) : e ∉ track contents (input, s) kind := by
  obtain ⟨hinput, hphase⟩ := hends
  rw [track, hinput]
  dsimp only
  rw [if_pos hphase]
  intro h
  have hkept := (mem_filter.mp h).2
  rw [hremoved.remove] at hkept
  cases hkept

theorem Removed.path (hpath : Path (Step clock) s steps s') (hinv : Inv s contents)
    (hremoved : Removed s.memory e) (hsteps : ∀ step ∈ steps, ¬step.1.Revives e) :
    (∀ step ∈ steps, ¬Invokes clock step e) ∧
      ((∃ step ∈ steps, PassEnds step) ∨ (∀ kind, e ∉ contents kind) →
        ∀ kind, e ∉ steps.foldl track contents kind) := by
  induction hpath generalizing contents with
  | nil s =>
    refine ⟨fun step h ↦ absurd h not_mem_nil, ?_⟩
    rintro (⟨step, hstep, -⟩ | hout)
    · cases hstep
    · exact hout
  | cons hstep hrest ih =>
    rename_i input s s' s'' steps
    have hinput : ¬input.Revives e := hsteps (input, s) mem_cons_self
    obtain ⟨hlater, hcontents⟩ := ih (hinv.step hstep) (hremoved.step hinv hstep hinput)
      fun step h ↦ hsteps step (mem_cons_of_mem _ h)
    constructor
    · intro step hmem
      rcases mem_cons.mp hmem with rfl | hmem
      · intro hinvokes
        have hrunning := running_of_invokes hinv hinvokes
        rw [hremoved.idle] at hrunning
        cases hrunning
      · exact hlater step hmem
    · rintro (⟨step, hmem, hends⟩ | hout)
      · rcases mem_cons.mp hmem with rfl | hmem
        · exact hcontents (Or.inr (hremoved.notMem_track hends))
        · exact hcontents (Or.inl ⟨step, hmem, hends⟩)
      · exact hcontents (Or.inr (Events.notMem_track hremoved.below hout))

/-! ### New events -/

structure Unmarked (m : Memory) (e : ℕ) : Prop where
  idle : (m.flags e).running = false
  below : e < m.size

theorem Unmarked.step (hinv : Inv s contents) (hunmarked : Unmarked s.memory e)
    (hstep : Step clock input s s') (hinput : ¬PassBegins (input, s)) : Unmarked s'.memory e := by
  obtain ⟨hidle, hbelow⟩ := hunmarked
  cases hstep.moves with
  | enter single hphase => exact ⟨hidle, hbelow⟩
  | select ret ready hphase hmark => exact absurd ⟨ret, ready, rfl⟩ hinput
  | op op =>
    refine ⟨?_, Nat.lt_of_lt_of_le hbelow (size_le_perform clock op s.memory)⟩
    cases flagsChange_perform clock op hbelow with
    | same hflags =>
      rw [hflags]
      exact hidle
    | revive hrevives hrunning => exact hrunning.trans hidle
    | remove hop hflags => rw [hflags]
  | done hphase => exact ⟨hidle, hbelow⟩
  | visit hphase =>
    rename_i kind x
    have hsize := (visit_sameLinks clock kind x s).size
    refine ⟨?_, hsize ▸ hbelow⟩
    rw [flags_visit_of_idle clock kind x hidle]
    exact hidle
  | nextList kind hphase hhead => exact ⟨hidle, hbelow⟩
  | finish hphase hfinish =>
    have hstrips := (finishPass_spec hinv.shape hfinish).1
    refine ⟨?_, hstrips.size ▸ hbelow⟩
    rw [hstrips.flags]
    exact hidle

theorem Unmarked.path (hpath : Path (Step clock) s steps s') (hinv : Inv s contents)
    (hunmarked : Unmarked s.memory e) (hsteps : ∀ step ∈ steps, ¬PassBegins step) :
    ∀ step ∈ steps, ¬Invokes clock step e := by
  induction hpath generalizing contents with
  | nil s => exact fun step h ↦ absurd h not_mem_nil
  | cons hstep hrest ih =>
    rename_i input s s' s'' steps
    intro step hmem
    rcases mem_cons.mp hmem with rfl | hmem
    · intro hinvokes
      have hrunning := running_of_invokes hinv hinvokes
      rw [hunmarked.idle] at hrunning
      cases hrunning
    · have hinput := hsteps (input, s) mem_cons_self
      exact ih (hinv.step hstep) (hunmarked.step hinv hstep hinput)
        (fun step h ↦ hsteps step (mem_cons_of_mem _ h)) step hmem

theorem unmarked_perform {flags : Flags} (clock : ℕ → TimeRef) (m : Memory)
    (hop : op.newFlags = some flags) (hflags : flags.running = false) :
    Unmarked (op.perform clock m) m.size := by
  have hadd (kind : Kind) (flags : Flags) (fill : Event → Event) :
      (addEvent kind flags fill m).flags m.size = flags := by
    rw [flags_addEvent, if_pos rfl]
  have hsize : op.adds ≠ none → m.size < (op.perform clock m).size := by
    intro hadds
    rw [size_perform, if_neg hadds]
    exact Nat.lt_succ_self _
  cases op with
  | addTimer msec flags' =>
    cases hop
    refine ⟨?_, hsize (Option.some_ne_none _)⟩
    show ((addTimerEvent clock msec flags m).flags m.size).running = false
    rw [addTimerEvent, flags_reschedEvent, if_pos rfl]
    exact (congrArg Flags.running (hadd .time flags _)).trans hflags
  | addAlarm t flags' =>
    cases hop
    refine ⟨?_, hsize (Option.some_ne_none _)⟩
    show ((addAlarmEvent clock t flags m).flags m.size).running = false
    rw [addAlarmEvent, flags_reschedEvent, if_pos rfl, hadd]
    exact hflags
  | addFd fd write flags' =>
    cases hop
    refine ⟨?_, hsize (Option.some_ne_none _)⟩
    show ((addFdEvent fd write flags m).flags m.size).running = false
    rw [addFdEvent, hadd]
    exact hflags
  | addAlways flags' =>
    cases hop
    refine ⟨?_, hsize (Option.some_ne_none _)⟩
    show ((addAlwaysEvent flags m).flags m.size).running = false
    rw [addAlwaysEvent, hadd]
    exact hflags
  | resched x tr => cases hop
  | remove x => cases hop
  | setInterval x msec => cases hop
  | setEnabled x enabled => cases hop
  | exitLoop => cases hop

/-! ### The loop -/

theorem memory_of_step (hstep : Step clock (.op op) s s') :
    s'.memory = op.perform clock s.memory := by
  cases hstep.moves
  rfl

/-- In every state that the program can come to, whatever the callbacks do:
* the lists are well formed and consist of the events that were added and not yet taken out;
* an event that is removed now is not called again, and it is out of its list from the next end of a
  pass on, as long as it is not brought back;
* an event that is added now without `EVENT_F_RUNNING` is not called before the next pass begins;
* a pass that has begun comes to its end, if the callbacks return. -/
theorem event_loop_safe (clock : ℕ → TimeRef) (event : ℕ → Event) (steps : List (Input × Loop))
    (s : Loop) (hpath : Path (Step clock) (initial event) steps s) :
    (∀ kind, Linked s.memory.prev s.memory.next (s.memory.list kind) (contentsOf steps kind)) ∧
    (∀ e s₁ later s', e < s.memory.size → Step clock (.op (.remove e)) s s₁ →
      Path (Step clock) s₁ later s' → (∀ step ∈ later, ¬step.1.Revives e) →
      (∀ step ∈ later, ¬Invokes clock step e) ∧
      ((∃ step ∈ later, PassEnds step) →
        ∀ kind, e ∉ contentsOf (steps ++ (.op (.remove e), s) :: later) kind)) ∧
    (∀ op flags s₁ later s', op.newFlags = some flags → flags.running = false →
      Step clock (.op op) s s₁ → Path (Step clock) s₁ later s' →
      (∀ step ∈ later, ¬PassBegins step) → ∀ step ∈ later, ¬Invokes clock step s.memory.size) ∧
    ∀ kind cursor, s.phase = .dispatch kind cursor →
      LeadsTo clock s fun s' ↦ s'.phase = .dispatch .fd none ∧ ∃ s'', Step clock .advance s' s'' := by
  have hinv : Inv s (contentsOf steps) := (inv_initial event).path hpath
  refine ⟨hinv.shape.linked, ?_, ?_, ?_⟩
  · intro e s₁ later s' he hstep hlater hsteps
    have hremoved : Removed s₁.memory e := by
      rw [memory_of_step hstep]
      exact removed_removeEvent he
    obtain ⟨hcalls, hcontents⟩ := Removed.path hlater (hinv.step hstep) hremoved hsteps
    refine ⟨hcalls, ?_⟩
    intro hends
    rw [contentsOf, foldl_append]
    exact hcontents (Or.inl hends)
  · intro op flags s₁ later s' hop hflags hstep hlater hsteps
    have hunmarked : Unmarked s₁.memory s.memory.size := by
      rw [memory_of_step hstep]
      exact unmarked_perform clock s.memory hop hflags
    exact Unmarked.path hlater (hinv.step hstep) hunmarked hsteps
  · intro kind cursor hphase
    exact hinv.pass_ends hphase

def plainFlags : Flags := ⟨false, false, false, false⟩

/-- The program on memory that is all zeros. -/
def sampleStart : Loop := initial fun _ ↦ ⟨none, none, plainFlags, ⟨0, 0⟩, 0, 0, false⟩

/-- A clock that stands still. -/
def stillClock : ℕ → TimeRef := fun _ ↦ ⟨0, 0⟩

/-- Two events that are always ready are added, and a pass comes to the second one. -/
def sampleBefore : List Input :=
  [.op (.addAlways plainFlags), .op (.addAlways plainFlags), .enter true,
    .select 0 fun _ _ ↦ false, .advance, .advance]

/-- The callback removes the first one, and the pass goes on up to its end. -/
def sampleRest : List Input := [.op (.remove 0), .done, .advance, .advance]

/-- A callback removes the other event: it is not called in the rest of the pass, and in no list at
the end of it. -/
theorem removed_event_unlinked :
    ∃ before s later s', Path (Step stillClock) sampleStart before s ∧
      s.phase = .callback .always 1 ∧ Path (Step stillClock) s ((.op (.remove 0), s) :: later) s' ∧
      (∃ step ∈ later, PassEnds step) ∧ (∀ step ∈ later, ¬Invokes stillClock step 0) ∧
      ∀ kind, 0 ∉ contentsOf (before ++ (.op (.remove 0), s) :: later) kind := by
  have hbefore : (run stillClock sampleBefore sampleStart).map (fun s ↦ (s.phase, s.memory.size)) =
      some (.callback .always 1, 2) := by
    decide
  obtain ⟨s, hrun, hs⟩ := Option.map_eq_some_iff.mp hbefore
  obtain ⟨hphase, hsize⟩ := Prod.mk.inj hs
  obtain ⟨before, hpath, -⟩ := exists_path_of_run hrun
  have hrest : (run stillClock (sampleBefore ++ sampleRest) sampleStart).map Loop.phase =
        some (.dispatch .fd none) ∧
      (run stillClock (sampleBefore ++ sampleRest ++ [.advance]) sampleStart).isSome := by
    decide
  obtain ⟨⟨t, ht, hend⟩, hfinish⟩ := And.imp_left Option.map_eq_some_iff.mp hrest
  obtain ⟨s', hlast⟩ : ∃ s', Step stillClock .advance t s' := by
    rw [run, foldlM_append, show foldlM _ _ _ = some t from ht] at hfinish
    obtain ⟨s', hs'⟩ := Option.isSome_iff_exists.mp hfinish
    exact ⟨s', by simpa [Step] using hs'⟩
  rw [run, foldlM_append, show foldlM _ _ _ = some s from hrun, Option.bind_eq_bind,
    Option.bind_some, sampleRest, foldlM_cons, Option.bind_eq_bind, Option.bind_eq_some_iff] at ht
  obtain ⟨s₁, hremove, hpass⟩ := ht
  obtain ⟨pass, hpass, hinputs⟩ := exists_path_of_run hpass
  have hlater := hpass.append (.single hlast)
  have hends : ∃ step ∈ pass ++ [(.advance, t)], PassEnds step :=
    ⟨(.advance, t), by simp, rfl, hend⟩
  -- No input of the pass brings the event back.
  have hsteps : ∀ step ∈ pass ++ [(.advance, t)], ¬step.1.Revives 0 := by
    intro step hstep
    have hmem : step.1 ∈ [.done, .advance, .advance] ++ [.advance] := by
      rw [← hinputs]
      simpa using mem_map_of_mem (f := Prod.fst) hstep
    simp only [cons_append, nil_append, mem_cons, not_mem_nil, or_false] at hmem
    rcases hmem with h | h | h | h <;> rw [h] <;> exact id
  obtain ⟨-, hsafe, -⟩ := event_loop_safe stillClock _ _ _ hpath
  obtain ⟨hquiet, hcontents⟩ := hsafe 0 s₁ _ s' (by omega) hremove hlater hsteps
  exact ⟨before, s, _, s', hpath, hphase, .cons hremove hlater, hends, hquiet, hcontents hends⟩

/-- A timer's callback adds an event that is always ready, with `EVENT_F_RUNNING` among its flags:
the event is called in the same pass. -/
theorem running_event_called_at_once :
    (run stillClock [.op (.addTimer 0 plainFlags), .enter true, .select 0 fun _ _ ↦ false,
      .advance] sampleStart).map (fun s ↦ (s.phase, s.memory.size)) =
        some (.callback .time 0, 1) ∧
    (run stillClock [.op (.addTimer 0 plainFlags), .enter true, .select 0 fun _ _ ↦ false,
      .advance, .op (.addAlways ⟨false, false, false, true⟩), .done, .advance,
      .advance] sampleStart).map Loop.phase = some (.callback .always 1) := by
  decide

end WisCam.Events
