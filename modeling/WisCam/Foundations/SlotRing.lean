import Mathlib.Data.List.Rotate
import Mathlib.Data.Nat.ModEq
import Mathlib.Logic.Function.Basic

/-!
# Rings of slots

A ring of a given number of slots, each empty or with an element in it, a slot to read next and a
slot to write next. `store` fills the slot to write, `advance` moves on to the next one, and `take`
empties the slot to read. The slots are linked in a circle, so a slot is found by its distance from
another one, modulo the size.

`Holds size ring queue` says that the filled slots, from the slot to read on, are the elements of
the queue in order, and that the slot to write comes after them. A ring that holds a queue may be
full, with all slots filled and the two positions equal. `Holds.push` and `Holds.take` are the rules
of the two ends, `Holds.occupied` counts the filled slots.
-/

set_option autoImplicit false

namespace WisCam.Foundations

open List

/-- A ring of slots, with the positions of the slot to read and of the slot to write. -/
structure SlotRing (α : Type) where
  slots : ℕ → Option α
  read : ℕ
  write : ℕ

namespace SlotRing

variable {α : Type} (size : ℕ)

def next (position : ℕ) : ℕ := (position + 1) % size

def empty : SlotRing α := ⟨fun _ ↦ none, 0, 0⟩

def full (elements : ℕ → α) : SlotRing α := ⟨fun i ↦ some (elements i), 0, 0⟩

def store (ring : SlotRing α) (a : α) : SlotRing α :=
  { ring with slots := Function.update ring.slots ring.write (some a) }

def advance (ring : SlotRing α) : SlotRing α := { ring with write := next size ring.write }

def push (ring : SlotRing α) (a : α) : SlotRing α := (ring.store a).advance size

/-- Empties the slot to read and moves on. -/
def take (ring : SlotRing α) : SlotRing α :=
  { ring with slots := Function.update ring.slots ring.read none, read := next size ring.read }

/-- The number of slots with an element that the test accepts. -/
def slotsWith (test : α → Bool) (ring : SlotRing α) : ℕ :=
  (List.range size).countP fun position ↦ (ring.slots position).any test

def occupied (ring : SlotRing α) : ℕ := ring.slotsWith size fun _ ↦ true

/-- The filled slots, from the slot to read on, are the queue, and the slot to write comes after
them. -/
structure Holds (ring : SlotRing α) (queue : List α) : Prop where
  bound : queue.length ≤ size
  read_lt : ring.read < size
  write : ring.write = (ring.read + queue.length) % size
  slots : ∀ k < size, ring.slots ((ring.read + k) % size) = queue[k]?

variable {size} {ring : SlotRing α} {queue : List α} {a : α}

theorem holds_empty (hsize : 0 < size) : Holds size (empty : SlotRing α) [] where
  bound := Nat.zero_le _
  read_lt := hsize
  write := (Nat.zero_mod size).symm
  slots _ _ := rfl

theorem holds_full (hsize : 0 < size) (elements : ℕ → α) :
    Holds size (full elements) ((List.range size).map elements) where
  bound := by simp
  read_lt := hsize
  write := by simp [full]
  slots k hk := by simp [full, Nat.mod_eq_of_lt hk, hk]

namespace Holds

theorem size_pos (hholds : Holds size ring queue) : 0 < size :=
  Nat.lt_of_le_of_lt (Nat.zero_le _) hholds.read_lt

/-- The slot to read has the oldest element. -/
theorem slot_read (hholds : Holds size ring queue) : ring.slots ring.read = queue.head? := by
  have hslot := hholds.slots 0 hholds.size_pos
  rw [Nat.add_zero, Nat.mod_eq_of_lt hholds.read_lt] at hslot
  rw [hslot, List.head?_eq_getElem?]

/-- While there is room, the slot to write is empty. -/
theorem slot_write (hholds : Holds size ring queue) (hroom : queue.length < size) :
    ring.slots ring.write = none := by
  rw [hholds.write, hholds.slots _ hroom]
  exact List.getElem?_eq_none (Nat.le_refl _)

/-- Distances below the size lead to different slots. -/
theorem distance_inj (start : ℕ) {j k : ℕ} (hj : j < size) (hk : k < size)
    (hsame : (start + j) % size = (start + k) % size) : j = k := by
  have hmod : j % size = k % size := Nat.ModEq.add_left_cancel' start hsame
  rwa [Nat.mod_eq_of_lt hj, Nat.mod_eq_of_lt hk] at hmod

/-- Every slot is at some distance from the slot to read. -/
theorem exists_distance (hholds : Holds size ring queue) {position : ℕ} (hposition : position < size) :
    ∃ k < size, (ring.read + k) % size = position := by
  refine ⟨(position + (size - ring.read)) % size, Nat.mod_lt _ hholds.size_pos, ?_⟩
  have hread := hholds.read_lt
  have hsum : ring.read + (position + (size - ring.read)) = position + size := by omega
  rw [Nat.add_mod_mod, hsum, Nat.add_mod_right, Nat.mod_eq_of_lt hposition]

/-- The elements in the slots are those of the queue. -/
theorem exists_slot_iff (hholds : Holds size ring queue) :
    (∃ position < size, ring.slots position = some a) ↔ a ∈ queue := by
  constructor
  · rintro ⟨position, hposition, hslot⟩
    obtain ⟨k, hk, rfl⟩ := hholds.exists_distance hposition
    rw [hholds.slots k hk] at hslot
    exact mem_of_getElem? hslot
  · intro ha
    obtain ⟨k, hk⟩ := mem_iff_getElem?.mp ha
    have hbelow := (List.getElem?_eq_some_iff.mp hk).1
    refine ⟨(ring.read + k) % size, Nat.mod_lt _ hholds.size_pos, ?_⟩
    rw [hholds.slots k (Nat.lt_of_lt_of_le hbelow hholds.bound), hk]

/-- The slot after the slot to write is the slot to read exactly when one slot is free. -/
theorem next_write_iff (hholds : Holds size ring queue) (hroom : queue.length < size) :
    next size ring.write = ring.read ↔ queue.length + 1 = size := by
  have hnext : next size ring.write = (ring.read + (queue.length + 1)) % size := by
    rw [next, hholds.write, Nat.mod_add_mod, Nat.add_assoc]
  rw [hnext]
  constructor
  · intro hsame
    by_contra hne
    have hzero := distance_inj ring.read (j := queue.length + 1) (k := 0) (by omega) hholds.size_pos
      (hsame.trans (by rw [Nat.add_zero, Nat.mod_eq_of_lt hholds.read_lt]))
    omega
  · intro hlast
    rw [hlast, Nat.add_mod_right, Nat.mod_eq_of_lt hholds.read_lt]

theorem push (hholds : Holds size ring queue) (hroom : queue.length < size) :
    Holds size (ring.push size a) (queue ++ [a]) where
  bound := by
    rw [length_append]
    exact hroom
  read_lt := hholds.read_lt
  write := by
    show next size ring.write = _
    rw [next, hholds.write, Nat.mod_add_mod, length_append]
    rfl
  slots k hk := by
    show Function.update ring.slots ring.write (some a) ((ring.read + k) % size) = _
    by_cases hlast : k = queue.length
    · rw [hlast, ← hholds.write, Function.update_self, List.getElem?_append_right (Nat.le_refl _)]
      simp
    · have hother : (ring.read + k) % size ≠ ring.write := by
        rw [hholds.write]
        exact fun hsame ↦ hlast (distance_inj ring.read hk hroom hsame)
      rw [Function.update_of_ne hother, hholds.slots k hk, List.getElem?_append]
      split_ifs with hin
      · rfl
      · have hbeyond : 1 ≤ k - queue.length := by omega
        rw [List.getElem?_eq_none (by omega), List.getElem?_eq_none hbeyond]

theorem take (hholds : Holds size ring (a :: queue)) : Holds size (ring.take size) queue where
  bound := Nat.le_of_succ_le hholds.bound
  read_lt := Nat.mod_lt _ hholds.size_pos
  write := by
    show ring.write = (next size ring.read + queue.length) % size
    rw [hholds.write, next, Nat.mod_add_mod, length_cons]
    congr 1
    omega
  slots k hk := by
    show Function.update ring.slots ring.read none ((next size ring.read + k) % size) = _
    have hplace : (next size ring.read + k) % size = (ring.read + (k + 1)) % size := by
      rw [next, Nat.mod_add_mod]
      congr 1
      omega
    rw [hplace]
    by_cases hlast : k + 1 = size
    · -- The last slot is the one that has just been emptied.
      have hread : (ring.read + (k + 1)) % size = ring.read := by
        rw [hlast, Nat.add_mod_right, Nat.mod_eq_of_lt hholds.read_lt]
      have hbound := hholds.bound
      rw [hread, Function.update_self, List.getElem?_eq_none]
      rw [length_cons] at hbound
      omega
    · have hother : (ring.read + (k + 1)) % size ≠ ring.read := by
        intro hsame
        have hzero := distance_inj ring.read (j := k + 1) (k := 0) (by omega) hholds.size_pos
          (hsame.trans (by rw [Nat.add_zero, Nat.mod_eq_of_lt hholds.read_lt]))
        omega
      rw [Function.update_of_ne hother, hholds.slots (k + 1) (by omega)]
      rfl

/-- The places of a ring, walked from the slot to read on. -/
theorem range_rotate (start : ℕ) :
    (List.range size).rotate start = (List.range size).map fun k ↦ (start + k) % size := by
  apply ext_getElem
  · simp
  · intro k _ _
    simp [getElem_rotate, Nat.add_comm]

/-- The first elements of a list by their places. -/
theorem filterMap_getElem? {bound : ℕ} (hbound : queue.length ≤ bound) :
    (List.range bound).filterMap (fun k ↦ queue[k]?) = queue := by
  induction queue generalizing bound with
  | nil => simp
  | cons first rest ih =>
    obtain ⟨below, rfl⟩ : ∃ below, bound = below + 1 :=
      ⟨bound - 1, (Nat.succ_pred_eq_of_pos (Nat.lt_of_lt_of_le (Nat.succ_pos _) hbound)).symm⟩
    have hrest := ih (Nat.le_of_succ_le_succ hbound)
    simpa [range_succ_eq_map, filterMap_map, Function.comp_def] using hrest

/-- The slots have the elements of the queue, each as often as it is there. -/
theorem slotsWith_eq (hholds : Holds size ring queue) (test : α → Bool) :
    ring.slotsWith size test = queue.countP test := by
  have hwalk : ring.slotsWith size test =
      (List.range size).countP fun k ↦ (queue[k]?).any test := by
    rw [SlotRing.slotsWith, ← ((List.range size).rotate_perm ring.read).countP_eq,
      range_rotate, countP_map]
    apply countP_congr
    intro k hk
    rw [Function.comp_apply, hholds.slots k (mem_range.mp hk)]
  have hqueue : queue.countP test = (List.range size).countP fun k ↦ (queue[k]?).any test := by
    conv_lhs => rw [← filterMap_getElem? hholds.bound, countP_filterMap]
    apply countP_congr
    intro k _
    cases queue[k]? <;> simp
  rw [hwalk, hqueue]

/-- As many slots are filled as there are elements in the queue. -/
theorem occupied (hholds : Holds size ring queue) : ring.occupied size = queue.length := by
  rw [SlotRing.occupied, hholds.slotsWith_eq, countP_true]

end Holds

end SlotRing

end WisCam.Foundations
