import Mathlib.Data.List.Basic
import Mathlib.Logic.Function.Basic

/-!
# Circular buffers as bounded queues

A circular buffer of a given size is a cell function with a read index and a write index. One cell
is always left unused, so that equal indices mean an empty buffer. `push` stores at the write index
and moves it one cell, `skip` moves the read index over cells that were consumed, and both wrap an
index that reaches the size back to zero, by a comparison and not by a division.

`contents` is the abstraction: the stored elements, oldest first. For valid indices
(`RingBuffer.Valid`), `room_eq` says that the free space is one less than the size minus the number
of stored elements, `contents_push` and `pushAll_spec` that pushing appends at the end of the queue,
and `contents_skip` with `segment_eq_take` that the contiguous cells after the read index are the
front of the queue.
-/

set_option autoImplicit false

namespace WisCam.Foundations

open List

/-- A circular buffer: its cells, the index of the oldest element and the index of the next free
cell. -/
structure RingBuffer (α : Type*) where
  cells : ℕ → α
  read : ℕ
  write : ℕ

namespace RingBuffer

variable {α : Type*} (size : ℕ)

/-- An index that has moved past the last cell returns to the first. -/
def wrap (index : ℕ) : ℕ := if index = size then 0 else index

/-- The cell `offset` places after `start`, for `start` and `offset` below the size. -/
def slot (start offset : ℕ) : ℕ :=
  if start + offset < size then start + offset else start + offset - size

/-- Both indices are cells of the buffer. -/
def Valid (ring : RingBuffer α) : Prop := ring.read < size ∧ ring.write < size

def count (ring : RingBuffer α) : ℕ :=
  if ring.write < ring.read then size - ring.read + ring.write else ring.write - ring.read

/-- The stored elements, oldest first. -/
def contents (ring : RingBuffer α) : List α :=
  (List.range (ring.count size)).map fun offset ↦ ring.cells (slot size ring.read offset)

def room (ring : RingBuffer α) : ℕ :=
  if ring.read > ring.write then ring.read - ring.write - 1
  else size - ring.write + ring.read - 1

/-- The number of stored elements in consecutive cells from the read index on. -/
def span (ring : RingBuffer α) : ℕ :=
  if ring.write < ring.read then size - ring.read else ring.write - ring.read

/-- The first `amount` cells from the read index on. -/
def segment (ring : RingBuffer α) (amount : ℕ) : List α :=
  (List.range amount).map fun offset ↦ ring.cells (ring.read + offset)

def push (ring : RingBuffer α) (a : α) : RingBuffer α :=
  ⟨Function.update ring.cells ring.write a, ring.read, wrap size (ring.write + 1)⟩

/-- Stores a list of elements, first element first. -/
def pushAll (ring : RingBuffer α) (elements : List α) : RingBuffer α :=
  elements.foldl (push size) ring

/-- Moves the read index over `amount` consecutive cells. -/
def skip (ring : RingBuffer α) (amount : ℕ) : RingBuffer α :=
  ⟨ring.cells, wrap size (ring.read + amount), ring.write⟩

variable {size}

/-! ### Indices and counts -/

variable {ring : RingBuffer α}

@[simp] theorem length_contents (ring : RingBuffer α) :
    (ring.contents size).length = ring.count size := by
  simp [contents]

theorem count_lt (hvalid : ring.Valid size) : ring.count size < size := by
  obtain ⟨hread, hwrite⟩ := hvalid
  unfold count
  split_ifs <;> omega

theorem count_eq_zero_iff (hvalid : ring.Valid size) :
    ring.count size = 0 ↔ ring.read = ring.write := by
  obtain ⟨hread, hwrite⟩ := hvalid
  unfold count
  split_ifs <;> omega

theorem contents_eq_nil_iff (hvalid : ring.Valid size) :
    ring.contents size = [] ↔ ring.read = ring.write := by
  rw [← count_eq_zero_iff hvalid, ← length_contents, length_eq_zero_iff]

/-- The free space of a valid buffer is one less than its size minus the stored elements. -/
theorem room_eq (hvalid : ring.Valid size) : ring.room size = size - 1 - ring.count size := by
  obtain ⟨hread, hwrite⟩ := hvalid
  unfold room count
  split_ifs <;> omega

theorem span_le_count (hvalid : ring.Valid size) : ring.span size ≤ ring.count size := by
  obtain ⟨hread, hwrite⟩ := hvalid
  unfold span count
  split_ifs <;> omega

theorem read_add_span_le (hvalid : ring.Valid size) : ring.read + ring.span size ≤ size := by
  obtain ⟨hread, hwrite⟩ := hvalid
  unfold span
  split_ifs <;> omega

/-! ### Pushing -/

theorem valid_push (hvalid : ring.Valid size) (a : α) : (ring.push size a).Valid size := by
  obtain ⟨hread, hwrite⟩ := hvalid
  refine ⟨hread, ?_⟩
  change wrap size (ring.write + 1) < size
  unfold wrap
  split_ifs <;> omega

theorem count_push (hvalid : ring.Valid size) (a : α) (hroom : ring.count size + 1 < size) :
    (ring.push size a).count size = ring.count size + 1 := by
  obtain ⟨hread, hwrite⟩ := hvalid
  simp only [count, push, wrap] at hroom ⊢
  split_ifs at hroom ⊢ <;> omega

/-- The cell after the stored elements is the one at the write index. -/
theorem slot_count (hvalid : ring.Valid size) :
    slot size ring.read (ring.count size) = ring.write := by
  obtain ⟨hread, hwrite⟩ := hvalid
  unfold slot count
  split_ifs <;> omega

theorem slot_ne_write (hvalid : ring.Valid size) {offset : ℕ} (hoffset : offset < ring.count size) :
    slot size ring.read offset ≠ ring.write := by
  obtain ⟨hread, hwrite⟩ := hvalid
  unfold count at hoffset
  unfold slot
  split_ifs at hoffset ⊢ <;> omega

/-- Pushing one element appends it to the queue. -/
theorem contents_push (hvalid : ring.Valid size) (a : α) (hroom : ring.count size + 1 < size) :
    (ring.push size a).contents size = ring.contents size ++ [a] := by
  have hold : ∀ offset ∈ List.range (ring.count size),
      (ring.push size a).cells (slot size ring.read offset) =
        ring.cells (slot size ring.read offset) := by
    intro offset hoffset
    exact Function.update_of_ne (slot_ne_write hvalid (mem_range.mp hoffset)) _ _
  have hnew : (ring.push size a).cells (slot size ring.read (ring.count size)) = a := by
    rw [slot_count hvalid]
    exact Function.update_self _ _ _
  calc (ring.push size a).contents size
      = (List.range (ring.count size)).map
            (fun offset ↦ (ring.push size a).cells (slot size ring.read offset)) ++
          [(ring.push size a).cells (slot size ring.read (ring.count size))] := by
        rw [contents, count_push hvalid a hroom, range_succ, map_append]
        rfl
    _ = ring.contents size ++ [a] := by rw [map_congr_left hold, hnew, contents]

/-- Pushing a list that fits keeps the indices valid and appends the list to the queue. -/
theorem pushAll_spec (hvalid : ring.Valid size) (elements : List α)
    (hroom : elements.length ≤ ring.room size) :
    (ring.pushAll size elements).Valid size ∧
      (ring.pushAll size elements).contents size = ring.contents size ++ elements := by
  induction elements generalizing ring with
  | nil => exact ⟨hvalid, (append_nil _).symm⟩
  | cons a rest ih =>
    have hcount := count_lt hvalid
    rw [room_eq hvalid, length_cons] at hroom
    have hstep : ring.count size + 1 < size := by omega
    have hpush := valid_push hvalid a
    have hrest : rest.length ≤ (ring.push size a).room size := by
      rw [room_eq hpush, count_push hvalid a hstep]
      omega
    obtain ⟨hdone, hcontents⟩ := ih hpush hrest
    refine ⟨hdone, ?_⟩
    calc (ring.pushAll size (a :: rest)).contents size
        = (ring.push size a).contents size ++ rest := hcontents
      _ = ring.contents size ++ a :: rest := by
        rw [contents_push hvalid a hstep, append_assoc, singleton_append]

/-! ### Consuming -/

variable {amount : ℕ}

theorem valid_skip (hvalid : ring.Valid size) (hamount : amount ≤ ring.span size) :
    (ring.skip size amount).Valid size := by
  have hspan := read_add_span_le hvalid
  obtain ⟨hread, hwrite⟩ := hvalid
  refine ⟨?_, hwrite⟩
  change wrap size (ring.read + amount) < size
  unfold wrap
  split_ifs <;> omega

theorem count_skip (hvalid : ring.Valid size) (hamount : amount ≤ ring.span size) :
    (ring.skip size amount).count size = ring.count size - amount := by
  obtain ⟨hread, hwrite⟩ := hvalid
  unfold span at hamount
  simp only [count, skip, wrap]
  split_ifs at hamount ⊢ <;> omega

theorem slot_skip (hvalid : ring.Valid size) {offset : ℕ}
    (hoffset : amount + offset < ring.count size) :
    slot size (wrap size (ring.read + amount)) offset = slot size ring.read (amount + offset) := by
  obtain ⟨hread, hwrite⟩ := hvalid
  unfold count at hoffset
  simp only [slot, wrap]
  split_ifs at hoffset ⊢ <;> omega

/-- The consecutive cells after the read index hold the front of the queue. -/
theorem segment_eq_take (hvalid : ring.Valid size) (hamount : amount ≤ ring.span size) :
    ring.segment amount = (ring.contents size).take amount := by
  have hcount := span_le_count hvalid
  have hend := read_add_span_le hvalid
  rw [contents, ← map_take, take_range, Nat.min_eq_left (Nat.le_trans hamount hcount)]
  refine map_congr_left fun offset hoffset ↦ ?_
  have hlt := mem_range.mp hoffset
  rw [slot, if_pos (by omega)]

/-- Skipping consecutive cells removes them from the front of the queue. -/
theorem contents_skip (hvalid : ring.Valid size) (hamount : amount ≤ ring.span size) :
    (ring.skip size amount).contents size = (ring.contents size).drop amount := by
  refine ext_getElem ?_ fun offset hleft hright ↦ ?_
  · rw [length_drop, length_contents, length_contents, count_skip hvalid hamount]
  · rw [length_contents, count_skip hvalid hamount] at hleft
    simp only [contents, getElem_map, getElem_range, getElem_drop]
    exact congrArg ring.cells (slot_skip hvalid (by omega))

end RingBuffer

end WisCam.Foundations
