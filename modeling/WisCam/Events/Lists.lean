import Mathlib.Data.List.Perm.Subperm
import WisCam.Events.Loop

/-!
# The lists of events

Which events are in the lists of `event.c`, and that the lists are well formed. `Shape m contents`
says that the three lists are doubly linked lists of the given events, that these were allocated,
and that no event is in two lists. Most operations change flags and times only (`SameLinks`); the
others are `addEvent`, which puts a new event in front of a list, and `strip_events`, which takes
out the events with `EVENT_F_REMOVE` (`exists_stripEvents`).
-/

set_option autoImplicit false

namespace WisCam.Events

open Foundations List

/-! ### Pointers -/

namespace Memory

def prev (m : Memory) (e : ℕ) : Option ℕ := (m.event e).prev

def next (m : Memory) (e : ℕ) : Option ℕ := (m.event e).next

def flags (m : Memory) (e : ℕ) : Flags := (m.event e).flags

variable (m : Memory) (e x : ℕ)

theorem event_modify (f : Event → Event) :
    (m.modify e f).event x = if x = e then f (m.event e) else m.event x :=
  Function.update_apply ..

/-- A store that keeps a member of the event keeps it everywhere. -/
theorem member_modify {β : Type} (member : Event → β) {f : Event → Event}
    (hf : ∀ event, member (f event) = member event) :
    member ((m.modify e f).event x) = member (m.event x) := by
  rw [event_modify]
  by_cases hx : x = e
  · rw [if_pos hx, hf, hx]
  · rw [if_neg hx]

theorem flags_setFlags (f : Flags → Flags) :
    (m.setFlags e f).flags x = if x = e then f (m.flags e) else m.flags x := by
  rw [flags, setFlags, event_modify, apply_ite Event.flags]
  rfl

variable (pointer value : Option ℕ)

theorem prev_setPrev :
    (m.setPrev pointer value).prev x = if pointer = some x then value else m.prev x := by
  cases pointer with
  | none => rfl
  | some p =>
    rw [prev, setPrev, event_modify]
    by_cases hx : x = p
    · rw [if_pos hx, if_pos (hx ▸ rfl)]
    · rw [if_neg hx, if_neg fun h ↦ hx (Option.some.inj h).symm]
      rfl

theorem next_setNext :
    (m.setNext pointer value).next x = if pointer = some x then value else m.next x := by
  cases pointer with
  | none => rfl
  | some p =>
    rw [next, setNext, event_modify]
    by_cases hx : x = p
    · rw [if_pos hx, if_pos (hx ▸ rfl)]
    · rw [if_neg hx, if_neg fun h ↦ hx (Option.some.inj h).symm]
      rfl

theorem next_setPrev : (m.setPrev pointer value).next = m.next := by
  funext x
  cases pointer with
  | none => rfl
  | some p =>
    exact m.member_modify p x Event.next (f := fun event ↦ { event with prev := value }) fun _ ↦ rfl

theorem prev_setNext : (m.setNext pointer value).prev = m.prev := by
  funext x
  cases pointer with
  | none => rfl
  | some p =>
    exact m.member_modify p x Event.prev (f := fun event ↦ { event with next := value }) fun _ ↦ rfl

theorem flags_setPrev : (m.setPrev pointer value).flags = m.flags := by
  funext x
  cases pointer with
  | none => rfl
  | some p =>
    exact m.member_modify p x Event.flags (f := fun event ↦ { event with prev := value }) fun _ ↦ rfl

theorem flags_setNext : (m.setNext pointer value).flags = m.flags := by
  funext x
  cases pointer with
  | none => rfl
  | some p =>
    exact m.member_modify p x Event.flags (f := fun event ↦ { event with next := value }) fun _ ↦ rfl

theorem list_setPrev :
    (m.setPrev pointer value).list = m.list ∧ (m.setPrev pointer value).size = m.size := by
  cases pointer with
  | none => exact ⟨rfl, rfl⟩
  | some p => exact ⟨rfl, rfl⟩

theorem list_setNext :
    (m.setNext pointer value).list = m.list ∧ (m.setNext pointer value).size = m.size := by
  cases pointer with
  | none => exact ⟨rfl, rfl⟩
  | some p => exact ⟨rfl, rfl⟩

end Memory

/-- The lists of the events. -/
structure Shape (m : Memory) (contents : Kind → List ℕ) : Prop where
  linked : ∀ kind, Linked m.prev m.next (m.list kind) (contents kind)
  below : ∀ kind, ∀ e ∈ contents kind, e < m.size
  apart : ∀ {kind kind' e}, e ∈ contents kind → e ∈ contents kind' → kind = kind'

/-- Nothing has changed in the lists. -/
structure SameLinks (m m' : Memory) : Prop where
  size : m'.size = m.size
  list : m'.list = m.list
  prev : m'.prev = m.prev
  next : m'.next = m.next

variable {m m' : Memory} {contents : Kind → List ℕ}

theorem SameLinks.refl (m : Memory) : SameLinks m m := ⟨rfl, rfl, rfl, rfl⟩

theorem SameLinks.trans {m'' : Memory} (hfirst : SameLinks m m') (hnext : SameLinks m' m'') :
    SameLinks m m'' :=
  ⟨hnext.size.trans hfirst.size, hnext.list.trans hfirst.list, hnext.prev.trans hfirst.prev,
    hnext.next.trans hfirst.next⟩

theorem Shape.of_sameLinks (hshape : Shape m contents) (hsame : SameLinks m m') :
    Shape m' contents := by
  constructor
  · intro kind
    rw [hsame.prev, hsame.next, hsame.list]
    exact hshape.linked kind
  · intro kind e he
    rw [hsame.size]
    exact hshape.below kind e he
  · exact hshape.apart

theorem sameLinks_modify (m : Memory) (e : ℕ) {f : Event → Event}
    (hf : ∀ event, (f event).prev = event.prev ∧ (f event).next = event.next) :
    SameLinks m (m.modify e f) := by
  refine ⟨rfl, rfl, ?_, ?_⟩
  · funext x
    exact m.member_modify e x Event.prev fun event ↦ (hf event).1
  · funext x
    exact m.member_modify e x Event.next fun event ↦ (hf event).2

theorem sameLinks_setFlags (m : Memory) (e : ℕ) (f : Flags → Flags) :
    SameLinks m (m.setFlags e f) :=
  sameLinks_modify m e fun _ ↦ ⟨rfl, rfl⟩

/-- `resched_event` stores a time in the event, after at most one look at the clock. -/
theorem setFire_eq (clock : ℕ → TimeRef) (e : ℕ) (tr : Option TimeRef) (m : Memory) :
    ∃ readings : ℕ, ∃ fire : Event → TimeRef, setFire clock e tr m =
      { m with readings := readings }.modify e fun event ↦ { event with fire := fire event } := by
  cases tr with
  | some t => exact ⟨m.readings, fun _ ↦ t, rfl⟩
  | none =>
    rw [setFire]
    split
    · exact ⟨m.readings, fun event ↦ timeAdd event.fire event.ival, rfl⟩
    · exact ⟨m.readings + 1, fun event ↦ timeAdd (clock m.readings) event.ival, rfl⟩

theorem sameLinks_setFire (clock : ℕ → TimeRef) (e : ℕ) (tr : Option TimeRef) (m : Memory) :
    SameLinks m (setFire clock e tr m) := by
  obtain ⟨readings, fire, heq⟩ := setFire_eq clock e tr m
  rw [heq]
  have hsame := sameLinks_modify { m with readings := readings } e
    (f := fun event ↦ { event with fire := fire event }) fun _ ↦ ⟨rfl, rfl⟩
  exact ⟨hsame.size, hsame.list, hsame.prev, hsame.next⟩

theorem flags_setFire (clock : ℕ → TimeRef) (e : ℕ) (tr : Option TimeRef) (m : Memory) :
    (setFire clock e tr m).flags = m.flags := by
  obtain ⟨readings, fire, heq⟩ := setFire_eq clock e tr m
  rw [heq]
  funext x
  exact Memory.member_modify { m with readings := readings } e x Event.flags
    (f := fun event ↦ { event with fire := fire event }) fun _ ↦ rfl

theorem sameLinks_reschedEvent (clock : ℕ → TimeRef) (e : ℕ) (tr : Option TimeRef) (m : Memory) :
    SameLinks m (reschedEvent clock e tr m) :=
  (sameLinks_setFire clock e tr m).trans (sameLinks_setFlags _ e _)

/-! ### New events -/

theorem Shape.size_notMem (hshape : Shape m contents) (kind : Kind) : m.size ∉ contents kind :=
  fun h ↦ Nat.lt_irrefl _ (hshape.below kind m.size h)

/-- An event at the head of a list is in the list. -/
theorem Shape.head_mem (hshape : Shape m contents) {kind : Kind} {e : ℕ}
    (hhead : m.list kind = some e) : e ∈ contents kind := by
  rw [(hshape.linked kind).head_eq] at hhead
  exact mem_of_mem_head? hhead

section NewEvent

variable (kind : Kind) (flags : Flags) (fill : Event → Event) (m : Memory) (x : ℕ)

theorem event_newEvent (event : Event) :
    (newEvent event m).event x = if x = m.size then event else m.event x :=
  Function.update_apply ..

theorem prev_addEvent (hfresh : m.list kind ≠ some m.size) :
    (addEvent kind flags fill m).prev x =
      if x = m.size then none else if m.list kind = some x then some m.size else m.prev x := by
  refine (Memory.prev_setPrev (newEvent _ m) x (m.list kind) (some m.size)).trans ?_
  rw [Memory.prev, event_newEvent]
  by_cases hx : x = m.size
  · rw [hx, if_neg hfresh, if_pos rfl, if_pos rfl]
  · rw [if_neg hx, if_neg hx]
    rfl

theorem next_addEvent :
    (addEvent kind flags fill m).next x = if x = m.size then m.list kind else m.next x := by
  refine (congrFun (Memory.next_setPrev (newEvent _ m) (m.list kind) (some m.size)) x).trans ?_
  rw [Memory.next, event_newEvent, apply_ite Event.next]
  rfl

theorem flags_addEvent :
    (addEvent kind flags fill m).flags x = if x = m.size then flags else m.flags x := by
  refine (congrFun (Memory.flags_setPrev (newEvent _ m) (m.list kind) (some m.size)) x).trans ?_
  rw [Memory.flags, event_newEvent, apply_ite Event.flags]
  rfl

theorem list_addEvent :
    (addEvent kind flags fill m).list = Function.update m.list kind (some m.size) ∧
      (addEvent kind flags fill m).size = m.size + 1 := by
  have hset (event : Event) := Memory.list_setPrev (newEvent event m) (m.list kind) (some m.size)
  rw [addEvent]
  constructor
  · rw [Memory.setList, (hset _).1]
    rfl
  · exact (hset _).2

end NewEvent

theorem Shape.fresh (hshape : Shape m contents) (kind : Kind) : m.list kind ≠ some m.size :=
  fun h ↦ hshape.size_notMem kind (hshape.head_mem h)

theorem Shape.addEvent (hshape : Shape m contents) (kind : Kind) (flags : Flags)
    (fill : Event → Event) :
    Shape (addEvent kind flags fill m)
      (Function.update contents kind (m.size :: contents kind)) := by
  have hprev (x : ℕ) := prev_addEvent kind flags fill m x (hshape.fresh kind)
  have hnext := next_addEvent kind flags fill m
  obtain ⟨hlist, hsize⟩ := list_addEvent kind flags fill m
  constructor
  · intro kind'
    rw [hlist]
    by_cases hkind : kind' = kind
    · rw [hkind, Function.update_self, Function.update_self]
      exact (hshape.linked kind).push (hshape.size_notMem kind) hprev hnext
    · rw [Function.update_of_ne hkind, Function.update_of_ne hkind]
      refine (hshape.linked kind').congr ?_
      intro x hx
      have hne : x ≠ m.size := fun h ↦ hshape.size_notMem kind' (h ▸ hx)
      have hhead : ¬m.list kind = some x := fun h ↦ hkind (hshape.apart hx (hshape.head_mem h))
      rw [hprev, hnext, if_neg hne, if_neg hne, if_neg hhead]
      exact ⟨rfl, rfl⟩
  · intro kind' e he
    rw [hsize]
    by_cases hkind : kind' = kind
    · rw [hkind, Function.update_self, mem_cons] at he
      rcases he with rfl | he
      · exact Nat.lt_succ_self _
      · exact Nat.lt_succ_of_lt (hshape.below kind e he)
    · rw [Function.update_of_ne hkind] at he
      exact Nat.lt_succ_of_lt (hshape.below kind' e he)
  · intro kind₁ kind₂ e he₁ he₂
    have hold {kind' : Kind} (he : e ∈ Function.update contents kind (m.size :: contents kind) kind') :
        e ∈ contents kind' ∨ kind' = kind ∧ e = m.size := by
      by_cases hkind : kind' = kind
      · rw [hkind, Function.update_self, mem_cons] at he
        rcases he with he | he
        · exact Or.inr ⟨hkind, he⟩
        · exact Or.inl (hkind ▸ he)
      · rw [Function.update_of_ne hkind] at he
        exact Or.inl he
    rcases hold he₁ with hold₁ | ⟨hkind₁, hnew₁⟩
    · rcases hold he₂ with hold₂ | ⟨-, hnew₂⟩
      · exact hshape.apart hold₁ hold₂
      · exact absurd (hnew₂ ▸ hold₁) (hshape.size_notMem kind₁)
    · rcases hold he₂ with hold₂ | ⟨hkind₂, -⟩
      · exact absurd (hnew₁ ▸ hold₂) (hshape.size_notMem kind₂)
      · exact hkind₁.trans hkind₂.symm

/-! ### Operations -/

def EventOp.adds : EventOp → Option Kind
  | .addTimer _ _ => some .time
  | .addAlarm _ _ => some .time
  | .addFd _ _ _ => some .fd
  | .addAlways _ => some .always
  | _ => none

def EventOp.track (op : EventOp) (size : ℕ) (contents : Kind → List ℕ) : Kind → List ℕ :=
  match op.adds with
  | some kind => Function.update contents kind (size :: contents kind)
  | none => contents

theorem Shape.perform (hshape : Shape m contents) (clock : ℕ → TimeRef) (op : EventOp) :
    Shape (op.perform clock m) (op.track m.size contents) := by
  cases op with
  | addTimer msec flags =>
    have hadded := hshape.addEvent .time flags (Event.timer msec (clock m.readings))
    show Shape (reschedEvent clock m.size none _) _
    refine Shape.of_sameLinks (hadded.of_sameLinks ?_) (sameLinks_reschedEvent clock _ none _)
    exact ⟨rfl, rfl, rfl, rfl⟩
  | addAlarm t flags =>
    have hadded := hshape.addEvent .time { flags with oneshot := true } id
    exact hadded.of_sameLinks (sameLinks_reschedEvent clock _ _ _)
  | addFd fd write flags =>
    show Shape (addFdEvent fd write flags m) _
    rw [addFdEvent]
    exact hshape.addEvent .fd _ _
  | addAlways flags =>
    show Shape (addAlwaysEvent flags m) _
    rw [addAlwaysEvent]
    exact hshape.addEvent .always _ _
  | resched e tr => exact hshape.of_sameLinks (sameLinks_reschedEvent clock e tr m)
  | remove e =>
    show Shape (removeEvent e m) contents
    rw [removeEvent]
    exact hshape.of_sameLinks (sameLinks_setFlags m e _)
  | setInterval e msec =>
    have hival := sameLinks_modify m e (f := fun event ↦ { event with ival := msec })
      fun _ ↦ ⟨rfl, rfl⟩
    show Shape (setEventInterval clock e msec m) contents
    rw [setEventInterval]
    split
    · exact hshape.of_sameLinks (hival.trans (sameLinks_reschedEvent clock e none _))
    · exact hshape.of_sameLinks hival
  | setEnabled e enabled =>
    show Shape (setEventEnabled e enabled m) contents
    rw [setEventEnabled]
    exact hshape.of_sameLinks (sameLinks_setFlags m e _)
  | exitLoop => exact hshape.of_sameLinks ⟨rfl, rfl, rfl, rfl⟩

/-! ### Marking -/

variable {front rest : List ℕ}

/-- A loop whose body changes no pointers reaches the end of the list. -/
theorem exists_forEvents {body : ℕ → Memory → Memory} (hbody : ∀ e m, SameLinks m (body e m))
    {fuel : ℕ} {head : Option ℕ} (hlinked : Linked m.prev m.next head (front ++ rest))
    (hfuel : rest.length ≤ fuel) :
    ∃ m', forEvents body fuel rest.head? m = some m' ∧ SameLinks m m' := by
  induction rest generalizing m front fuel with
  | nil =>
    refine ⟨m, ?_, SameLinks.refl m⟩
    cases fuel with
    | zero => rfl
    | succ fuel => rfl
  | cons e rest ih =>
    cases fuel with
    | zero => exact absurd hfuel (Nat.not_succ_le_zero _)
    | succ fuel =>
      have hsame := hbody e m
      have hafter : Linked (body e m).prev (body e m).next head (front ++ [e] ++ rest) := by
        rw [hsame.prev, hsame.next, append_assoc]
        exact hlinked
      obtain ⟨m', hloop, hsame'⟩ := ih hafter (Nat.le_of_succ_le_succ hfuel)
      refine ⟨m', ?_, hsame.trans hsame'⟩
      rw [← hlinked.neighbours.2] at hloop
      exact hloop

theorem Shape.length_le (hshape : Shape m contents) (kind : Kind) :
    (contents kind).length ≤ m.size := by
  have hsubset : contents kind ⊆ List.range m.size := fun e he ↦
    mem_range.mpr (hshape.below kind e he)
  have hlength := (List.Nodup.subperm (hshape.linked kind).nodup hsubset).length_le
  rwa [length_range] at hlength

theorem Shape.exists_loop (hshape : Shape m contents) {body : ℕ → Memory → Memory}
    (hbody : ∀ e m, SameLinks m (body e m)) (kind : Kind) :
    ∃ m', forEvents body m.size (m.list kind) m = some m' ∧ SameLinks m m' := by
  have hlinked : Linked m.prev m.next (m.list kind) ([] ++ contents kind) := hshape.linked kind
  obtain ⟨m', hloop, hsame⟩ := exists_forEvents hbody hlinked (hshape.length_le kind)
  rw [← (hshape.linked kind).head_eq] at hloop
  exact ⟨m', hloop, hsame⟩

theorem Shape.exists_markEvents (hshape : Shape m contents) :
    ∃ m', markEvents m = some m' ∧ SameLinks m m' := by
  have hbody : ∀ e m, SameLinks m (markEvent e m) := fun e m ↦ sameLinks_setFlags m e _
  obtain ⟨m₁, hloop₁, hsame₁⟩ := hshape.exists_loop hbody .time
  have hshape₁ := hshape.of_sameLinks hsame₁
  obtain ⟨m₂, hloop₂, hsame₂⟩ := hshape₁.exists_loop hbody .always
  have hshape₂ := hshape₁.of_sameLinks hsame₂
  obtain ⟨m₃, hloop₃, hsame₃⟩ := hshape₂.exists_loop hbody .fd
  refine ⟨m₃, ?_, (hsame₁.trans hsame₂).trans hsame₃⟩
  rw [markEvents, hloop₁]
  show (forEvents markEvent m₁.size (m₁.list .always) m₁ >>= _) = _
  rw [hloop₂]
  exact hloop₃

/-! ### Taking out -/

def kept (m : Memory) (events : List ℕ) : List ℕ := events.filter fun e ↦ !(m.flags e).remove

/-- Other contents of the lists, with the same flags. -/
structure Strips (m m' : Memory) (contents : Kind → List ℕ) : Prop where
  shape : Shape m' contents
  flags : m'.flags = m.flags
  size : m'.size = m.size

section StripEvent

variable (kind : Kind) {e : ℕ}

theorem stripEvent_first (hremove : (m.flags e).remove = true) (hfirst : m.prev e = none) :
    stripEvent kind e m = (m.setPrev (m.next e) (m.prev e)).setList kind (m.next e) :=
  (if_pos hremove).trans (if_pos hfirst)

theorem stripEvent_later (hremove : (m.flags e).remove = true) (hlater : m.prev e ≠ none) :
    stripEvent kind e m = (m.setPrev (m.next e) (m.prev e)).setNext (m.prev e) (m.next e) :=
  (if_pos hremove).trans (if_neg hlater)

theorem prev_stripEvent (hremove : (m.flags e).remove = true) (x : ℕ) :
    (stripEvent kind e m).prev x = if m.next e = some x then m.prev e else m.prev x := by
  by_cases hfirst : m.prev e = none
  · rw [stripEvent_first kind hremove hfirst]
    exact m.prev_setPrev x (m.next e) (m.prev e)
  · rw [stripEvent_later kind hremove hfirst, Memory.prev_setNext, Memory.prev_setPrev]

theorem next_stripEvent (hremove : (m.flags e).remove = true) (x : ℕ) :
    (stripEvent kind e m).next x = if m.prev e = some x then m.next e else m.next x := by
  by_cases hfirst : m.prev e = none
  · rw [stripEvent_first kind hremove hfirst, hfirst, if_neg (Option.some_ne_none x).symm]
    exact congrFun (m.next_setPrev (m.next e) none) x
  · rw [stripEvent_later kind hremove hfirst, Memory.next_setNext, Memory.next_setPrev]

theorem list_stripEvent (hremove : (m.flags e).remove = true) :
    (stripEvent kind e m).list =
        Function.update m.list kind (if m.prev e = none then m.next e else m.list kind) ∧
      (stripEvent kind e m).size = m.size := by
  obtain ⟨hlist, hsize⟩ := m.list_setPrev (m.next e) (m.prev e)
  by_cases hfirst : m.prev e = none
  · rw [stripEvent_first kind hremove hfirst, if_pos hfirst, Memory.setList, hlist]
    exact ⟨rfl, hsize⟩
  · rw [stripEvent_later kind hremove hfirst, if_neg hfirst, Function.update_eq_self,
      (Memory.list_setNext _ _ _).1, (Memory.list_setNext _ _ _).2]
    exact ⟨hlist, hsize⟩

theorem flags_stripEvent (hremove : (m.flags e).remove = true) :
    (stripEvent kind e m).flags = m.flags := by
  by_cases hfirst : m.prev e = none
  · rw [stripEvent_first kind hremove hfirst]
    exact m.flags_setPrev _ _
  · rw [stripEvent_later kind hremove hfirst, Memory.flags_setNext, Memory.flags_setPrev]

end StripEvent

theorem Shape.stripEvent (hshape : Shape m contents) {kind : Kind} {e : ℕ}
    (hcontents : contents kind = front ++ e :: rest) (hremove : (m.flags e).remove = true) :
    Strips m (stripEvent kind e m) (Function.update contents kind (front ++ rest)) := by
  have hlinked := hshape.linked kind
  rw [hcontents] at hlinked
  obtain ⟨hbefore, hafter⟩ := hlinked.neighbours
  obtain ⟨hlist, hsize⟩ := list_stripEvent kind hremove
  have hprev := prev_stripEvent kind hremove
  have hnext := next_stripEvent kind hremove
  have hsubset {kind' : Kind} {x : ℕ}
      (hx : x ∈ Function.update contents kind (front ++ rest) kind') : x ∈ contents kind' := by
    by_cases hkind : kind' = kind
    · rw [hkind, Function.update_self, mem_append] at hx
      rw [hkind, hcontents, mem_append, mem_cons]
      rcases hx with hx | hx
      · exact Or.inl hx
      · exact Or.inr (Or.inr hx)
    · rwa [Function.update_of_ne hkind] at hx
  refine ⟨⟨?_, ?_, ?_⟩, flags_stripEvent kind hremove, hsize⟩
  · intro kind'
    rw [hlist]
    by_cases hkind : kind' = kind
    · rw [hkind, Function.update_self, Function.update_self]
      exact hlinked.unlink hprev hnext
    · rw [Function.update_of_ne hkind, Function.update_of_ne hkind]
      refine (hshape.linked kind').congr ?_
      intro x hx
      -- the neighbours of the event are in its own list
      have hfar : x ∉ contents kind := fun h ↦ hkind (hshape.apart hx h)
      rw [hcontents, mem_append, mem_cons] at hfar
      have hnextFar : ¬m.next e = some x := by
        rw [hafter]
        exact fun h ↦ hfar (Or.inr (Or.inr (mem_of_mem_head? h)))
      have hprevFar : ¬m.prev e = some x := by
        rw [hbefore]
        exact fun h ↦ hfar (Or.inl (mem_of_getLast? h))
      rw [hprev, hnext, if_neg hnextFar, if_neg hprevFar]
      exact ⟨rfl, rfl⟩
  · intro kind' x hx
    rw [hsize]
    exact hshape.below kind' x (hsubset hx)
  · intro kind₁ kind₂ x hx₁ hx₂
    exact hshape.apart (hsubset hx₁) (hsubset hx₂)

theorem kept_congr (hflags : m'.flags = m.flags) (events : List ℕ) : kept m' events = kept m events := by
  rw [kept, hflags]
  rfl

/-- `strip_events` reaches the end of the list and leaves the events that stay, in their order. -/
theorem Shape.exists_stripLoop (hshape : Shape m contents) {kind : Kind} {fuel : ℕ}
    (hcontents : contents kind = front ++ rest) (hfuel : rest.length ≤ fuel) :
    ∃ m', forEvents (Events.stripEvent kind) fuel rest.head? m = some m' ∧
      Strips m m' (Function.update contents kind (front ++ kept m rest)) := by
  induction rest generalizing m contents front fuel with
  | nil =>
    refine ⟨m, ?_, ?_, rfl, rfl⟩
    · cases fuel with
      | zero => rfl
      | succ fuel => rfl
    · rw [kept, filter_nil, ← hcontents, Function.update_eq_self]
      exact hshape
  | cons e rest ih =>
    cases fuel with
    | zero => exact absurd hfuel (Nat.not_succ_le_zero _)
    | succ fuel =>
      have hlinked := hshape.linked kind
      rw [hcontents] at hlinked
      have hafter : (m.event e).next = rest.head? := hlinked.neighbours.2
      rw [List.head?_cons, forEvents, hafter]
      by_cases hremove : (m.flags e).remove = true
      · obtain ⟨hshape₁, hflags, hsize⟩ := hshape.stripEvent hcontents hremove
        obtain ⟨m', hloop, hshape', hflags', hsize'⟩ :=
          ih hshape₁ (Function.update_self ..) (Nat.le_of_succ_le_succ hfuel)
        refine ⟨m', hloop, ?_, hflags'.trans hflags, hsize'.trans hsize⟩
        rw [Function.update_idem, kept_congr hflags] at hshape'
        have hkept : kept m (e :: rest) = kept m rest :=
          filter_cons_of_neg (by simp [hremove])
        rw [hkept]
        exact hshape'
      · have hsame : Events.stripEvent kind e m = m := if_neg hremove
        have hkept : kept m (e :: rest) = e :: kept m rest :=
          filter_cons_of_pos (by simpa using hremove)
        rw [hsame, hkept, append_cons]
        rw [append_cons] at hcontents
        exact ih hshape hcontents (Nat.le_of_succ_le_succ hfuel)

theorem Shape.exists_stripEvents (hshape : Shape m contents) (kind : Kind) :
    ∃ m', stripEvents kind m = some m' ∧
      Strips m m' (Function.update contents kind (kept m (contents kind))) := by
  rw [stripEvents, (hshape.linked kind).head_eq]
  exact hshape.exists_stripLoop (nil_append _).symm (hshape.length_le kind)

end WisCam.Events
