import Mathlib.Data.Int.Notation
import Mathlib.Logic.Function.Basic
import WisCam.Foundations.DoublyLinked
import WisCam.Foundations.Paths

/-!
# The event loop

`event.c` keeps the timer events, the events that are always ready and the events of file
descriptors in three doubly linked lists. A pass of `event_loop` marks the events that are enabled
(`EVENT_F_RUNNING`), waits in `select`, walks through the three lists and calls the callbacks of the
marked events that are ready, and at the end takes the events with `EVENT_F_REMOVE` out of the
lists.

The callbacks are outside of the model, and they may use every function of `event.c` except
`event_loop` itself. So the loop is a machine with steps: each round of a walk is a step, and
between two of them, inside a callback, and outside of `event_loop`, any `EventOp` can happen.
Marking and taking out, which call nothing, are single steps.

An address stands for one event, since events are never freed. The contents of memory before an
event is allocated are arbitrary. Left out: the callbacks and their data, the time that `select`
waits, and the soft queues, which use the events of their pipes.
-/

set_option autoImplicit false

namespace WisCam.Events

open Foundations

/-! ### Times -/

/-- `time_ref`. -/
structure TimeRef where
  sec : ℤ
  usec : ℤ
deriving DecidableEq, Repr

/-- `time_diff` in milliseconds, with sums and products of 32 bits. -/
def timeDiff (start finish : TimeRef) : ℤ :=
  (((finish.sec - start.sec) * 1000000 + finish.usec - start.usec + 500).bmod 4294967296).tdiv 1000

/-- `time_add`, with the seconds and the microseconds in 32 bits each. -/
def timeAdd (tr : TimeRef) (msec : ℤ) : TimeRef :=
  let sec := (tr.sec + msec.tdiv 1000).bmod 4294967296
  let usec := (tr.usec + msec.tmod 1000 * 1000).bmod 4294967296
  if usec ≥ 1000000 then ⟨(sec + 1).bmod 4294967296, usec - 1000000⟩ else ⟨sec, usec⟩

/-! ### Events -/

/-- The three lists. -/
inductive Kind
  | time
  | always
  | fd
deriving DecidableEq, Repr

/-- `flags` with the bits `EVENT_F_ENABLED`, `EVENT_F_REMOVE`, `EVENT_F_ONESHOT`,
`EVENT_F_RUNNING`. -/
structure Flags where
  enabled : Bool
  remove : Bool
  oneshot : Bool
  running : Bool
deriving DecidableEq, Repr

/-- `struct event`. -/
structure Event where
  prev : Option ℕ
  next : Option ℕ
  flags : Flags
  fire : TimeRef
  ival : ℤ
  fd : ℤ
  write : Bool
deriving DecidableEq, Repr

/-- The variables of `event.c` and the events; `size` events have been allocated, and the clock has
been read `readings` times. -/
structure Memory where
  event : ℕ → Event
  size : ℕ
  list : Kind → Option ℕ
  endLoop : Bool
  readings : ℕ

def Memory.modify (m : Memory) (e : ℕ) (f : Event → Event) : Memory :=
  { m with event := Function.update m.event e (f (m.event e)) }

def Memory.setFlags (m : Memory) (e : ℕ) (f : Flags → Flags) : Memory :=
  m.modify e fun event ↦ { event with flags := f event.flags }

/-- `if (pointer) pointer->prev = value`. -/
def Memory.setPrev (m : Memory) (pointer value : Option ℕ) : Memory :=
  match pointer with
  | some e => m.modify e fun event ↦ { event with prev := value }
  | none => m

def Memory.setNext (m : Memory) (pointer value : Option ℕ) : Memory :=
  match pointer with
  | some e => m.modify e fun event ↦ { event with next := value }
  | none => m

def Memory.setList (m : Memory) (kind : Kind) (head : Option ℕ) : Memory :=
  { m with list := Function.update m.list kind head }

/-- `new_event`, with the members that the caller sets afterwards. -/
def newEvent (event : Event) (m : Memory) : Memory :=
  { m with event := Function.update m.event m.size event, size := m.size + 1 }

/-- A new event with the given flags, linked in front of a list. -/
def addEvent (kind : Kind) (flags : Flags) (fill : Event → Event) (m : Memory) : Memory :=
  let event := { fill (m.event m.size) with prev := none, next := m.list kind, flags := flags }
  ((newEvent event m).setPrev (m.list kind) (some m.size)).setList kind (some m.size)

/-- The members of a timer event that are set when it is added. -/
def Event.timer (msec : ℤ) (now : TimeRef) (event : Event) : Event :=
  { event with ival := msec, fire := now }

/-- The members of the event of a file descriptor that are set when it is added. -/
def Event.descriptor (fd : ℤ) (write : Bool) (event : Event) : Event :=
  { event with fd := fd, write := write }

section Operations

variable (clock : ℕ → TimeRef)

/-- The next time of an event in `resched_event`. -/
def setFire (e : ℕ) (tr : Option TimeRef) (m : Memory) : Memory :=
  match tr with
  | some t => m.modify e fun event ↦ { event with fire := t }
  | none =>
    if (m.event e).flags.enabled then
      m.modify e fun event ↦ { event with fire := timeAdd event.fire event.ival }
    else
      { m with readings := m.readings + 1 }.modify e fun event ↦
        { event with fire := timeAdd (clock m.readings) event.ival }

def reschedEvent (e : ℕ) (tr : Option TimeRef) (m : Memory) : Memory :=
  Memory.setFlags (setFire clock e tr m) e fun flags ↦ { flags with remove := false, enabled := true }

def addTimerEvent (msec : ℤ) (flags : Flags) (m : Memory) : Memory :=
  let m' := addEvent .time flags (Event.timer msec (clock m.readings)) m
  reschedEvent clock m.size none { m' with readings := m.readings + 1 }

def addAlarmEvent (t : TimeRef) (flags : Flags) (m : Memory) : Memory :=
  reschedEvent clock m.size (some t) (addEvent .time { flags with oneshot := true } id m)

def addFdEvent (fd : ℤ) (write : Bool) (flags : Flags) (m : Memory) : Memory :=
  addEvent .fd { flags with enabled := true } (Event.descriptor fd write) m

def addAlwaysEvent (flags : Flags) (m : Memory) : Memory :=
  addEvent .always { flags with enabled := true } id m

def removeEvent (e : ℕ) (m : Memory) : Memory :=
  m.setFlags e fun flags ↦ { flags with remove := true, running := false, enabled := false }

def setEventInterval (e : ℕ) (msec : ℤ) (m : Memory) : Memory :=
  let m := m.modify e fun event ↦ { event with ival := msec }
  if (m.event e).flags.enabled then reschedEvent clock e none m else m

def setEventEnabled (e : ℕ) (enabled : Bool) (m : Memory) : Memory :=
  m.setFlags e fun flags ↦ { flags with enabled := enabled }

/-- A call of a function of `event.c`. -/
inductive EventOp
  | addTimer (msec : ℤ) (flags : Flags)
  | addAlarm (t : TimeRef) (flags : Flags)
  | addFd (fd : ℤ) (write : Bool) (flags : Flags)
  | addAlways (flags : Flags)
  | resched (e : ℕ) (tr : Option TimeRef)
  | remove (e : ℕ)
  | setInterval (e : ℕ) (msec : ℤ)
  | setEnabled (e : ℕ) (enabled : Bool)
  | exitLoop
deriving DecidableEq, Repr

def EventOp.perform : EventOp → Memory → Memory
  | .addTimer msec flags => addTimerEvent clock msec flags
  | .addAlarm t flags => addAlarmEvent clock t flags
  | .addFd fd write flags => addFdEvent fd write flags
  | .addAlways flags => addAlwaysEvent flags
  | .resched e tr => reschedEvent clock e tr
  | .remove e => removeEvent e
  | .setInterval e msec => setEventInterval clock e msec
  | .setEnabled e enabled => setEventEnabled e enabled
  | .exitLoop => fun m ↦ { m with endLoop := true }

end Operations

/-! ### Loops over a list -/

/-- A loop over the events from one on. The event after is looked up before the body is executed;
the bodies of the marking loops do not change it. More than `fuel` events are not reached. -/
def forEvents (body : ℕ → Memory → Memory) : ℕ → Option ℕ → Memory → Option Memory
  | _, none, m => some m
  | 0, some _, _ => none
  | fuel + 1, some e, m => forEvents body fuel (m.event e).next (body e m)

/-- The body of the loops that look for the enabled events. -/
def markEvent (e : ℕ) (m : Memory) : Memory :=
  m.setFlags e fun flags ↦ { flags with running := flags.enabled }

/-- The loops before `select`. -/
def markEvents (m : Memory) : Option Memory := do
  let m ← forEvents markEvent m.size (m.list .time) m
  let m ← forEvents markEvent m.size (m.list .always) m
  forEvents markEvent m.size (m.list .fd) m

/-- The body of `strip_events`. -/
def stripEvent (kind : Kind) (e : ℕ) (m : Memory) : Memory :=
  let event := m.event e
  if event.flags.remove then
    let m := m.setPrev event.next event.prev
    if event.prev = none then m.setList kind event.next else m.setNext event.prev event.next
  else m

def stripEvents (kind : Kind) (m : Memory) : Option Memory :=
  forEvents (stripEvent kind) m.size (m.list kind) m

/-! ### The loop -/

/-- Where the program is: outside of `event_loop`, at the beginning of a pass, at the head of a
`for` loop with its variable `e`, or in the callback of an event. -/
inductive Phase
  | outside
  | top
  | dispatch (kind : Kind) (e : Option ℕ)
  | callback (kind : Kind) (e : ℕ)
deriving DecidableEq, Repr

/-- The program with the argument of `event_loop` and what `select` has returned: `ret`, and whether
a descriptor is ready to be written or read. -/
structure Loop where
  memory : Memory
  phase : Phase
  single : Bool
  ret : ℤ
  ready : ℤ → Bool → Bool

/-- What comes from outside: a call of `event_loop`, the end of `select`, a call of another
function, a callback that returns; and the sign to go on. -/
inductive Input
  | enter (single : Bool)
  | select (ret : ℤ) (ready : ℤ → Bool → Bool)
  | op (op : EventOp)
  | done
  | advance

/-- The callback of an event is called; an event with `EVENT_F_ONESHOT` is removed before. -/
def invoke (kind : Kind) (e : ℕ) (s : Loop) : Loop :=
  let memory := if (s.memory.event e).flags.oneshot then
      s.memory.setFlags e fun flags ↦ { flags with remove := true }
    else s.memory
  { s with memory := memory, phase := .callback kind e }

/-- The same for a timer event, which is rescheduled otherwise. -/
def invokeTimer (clock : ℕ → TimeRef) (e : ℕ) (s : Loop) : Loop :=
  if (s.memory.event e).flags.oneshot then invoke .time e s
  else { s with memory := reschedEvent clock e none s.memory, phase := .callback .time e }

/-- One round of the loop over a list. -/
def visit (clock : ℕ → TimeRef) (kind : Kind) (e : ℕ) (s : Loop) : Loop :=
  let event := s.memory.event e
  if !event.flags.running then { s with phase := .dispatch kind event.next }
  else if s.memory.endLoop then { s with phase := .dispatch kind none }
  else match kind with
    | .time =>
      let diff := -timeDiff event.fire (clock s.memory.readings)
      let s := { s with memory := { s.memory with readings := s.memory.readings + 1 } }
      if diff < 5 then invokeTimer clock e s else { s with phase := .dispatch .time event.next }
    | .always => invoke .always e s
    | .fd =>
      if s.ready event.fd event.write then invoke .fd e s
      else { s with phase := .dispatch .fd event.next }

def finishPass (s : Loop) : Option Loop := do
  let m ← stripEvents .time s.memory
  let m ← stripEvents .fd m
  let m ← stripEvents .always m
  some { s with memory := m, phase := if !m.endLoop && !s.single then .top else .outside }

/-- A step of the program, if the input is possible where it is. -/
def step (clock : ℕ → TimeRef) (s : Loop) : Input → Option Loop
  | .enter single =>
    match s.phase with
    | .outside => some { s with memory := { s.memory with endLoop := false }, phase := .top,
                                single := single }
    | _ => none
  | .select ret ready =>
    match s.phase with
    | .top => do
      let m ← markEvents s.memory
      some { s with memory := m, phase := .dispatch .time (m.list .time), ret := ret,
                    ready := ready }
    | _ => none
  | .op op =>
    match s.phase with
    | .outside | .callback _ _ => some { s with memory := op.perform clock s.memory }
    | _ => none
  | .done =>
    match s.phase with
    | .callback kind e => some { s with phase := .dispatch kind (s.memory.event e).next }
    | _ => none
  | .advance =>
    match s.phase with
    | .dispatch kind (some e) => some (visit clock kind e s)
    | .dispatch .time none => some { s with phase := .dispatch .always (s.memory.list .always) }
    | .dispatch .always none =>
      some { s with phase := .dispatch .fd (if s.ret > 0 then s.memory.list .fd else none) }
    | .dispatch .fd none => finishPass s
    | _ => none

/-- The program before anything has happened, for any contents of memory. -/
def initial (event : ℕ → Event) : Loop where
  memory := ⟨event, 0, fun _ ↦ none, false, 0⟩
  phase := .outside
  single := false
  ret := 0
  ready := fun _ _ ↦ false

def Step (clock : ℕ → TimeRef) (input : Input) (s s' : Loop) : Prop := step clock s input = some s'

def run (clock : ℕ → TimeRef) (inputs : List Input) (s : Loop) : Option Loop :=
  inputs.foldlM (step clock) s

theorem exists_path_of_run {clock : ℕ → TimeRef} {inputs : List Input} {s s' : Loop}
    (hrun : run clock inputs s = some s') :
    ∃ steps, Path (Step clock) s steps s' ∧ steps.map Prod.fst = inputs := by
  induction inputs generalizing s with
  | nil =>
    cases hrun
    exact ⟨[], .nil s', rfl⟩
  | cons input inputs ih =>
    rw [run, List.foldlM_cons] at hrun
    cases hstep : step clock s input with
    | none =>
      rw [hstep] at hrun
      cases hrun
    | some next =>
      rw [hstep] at hrun
      obtain ⟨steps, hpath, hinputs⟩ := ih hrun
      refine ⟨(input, s) :: steps, .cons hstep hpath, ?_⟩
      rw [List.map_cons, hinputs]

end WisCam.Events
