import Mathlib.Data.List.Nodup

/-!
# Linked lists of allocated nodes

A list of nodes, newest first, each at an address of its own. An address is used once: a node that
has been freed leaves none behind, so that a pointer to it is recognised as dangling (`get?` is
`none`). The operations are those of a doubly linked list that only inserts in front: `push`,
`modify` at an address, `erase` and a search from the front. The nodes with a property are counted,
and the count follows the pointers: a change at one address changes it by at most one.
-/

set_option autoImplicit false

namespace WisCam.Foundations

open List

/-- Nodes with distinct addresses below the next free one. -/
structure NodeTable (α : Type) where
  nodes : List (ℕ × α)
  next : ℕ
  nodup : (nodes.map Prod.fst).Nodup
  lt_next : ∀ node ∈ nodes, node.1 < next

namespace NodeTable

variable {α : Type}

def empty : NodeTable α := ⟨[], 0, List.nodup_nil, fun _ h ↦ absurd h List.not_mem_nil⟩

/-- What a pointer designates. -/
def get? (table : NodeTable α) (address : ℕ) : Option α := table.nodes.lookup address

def push (table : NodeTable α) (a : α) : NodeTable α where
  nodes := (table.next, a) :: table.nodes
  next := table.next + 1
  nodup := by
    refine List.nodup_cons.mpr ⟨fun hmem ↦ ?_, table.nodup⟩
    obtain ⟨node, hnode, hnext⟩ := List.mem_map.mp hmem
    exact absurd (table.lt_next node hnode) (by rw [hnext]; exact Nat.lt_irrefl _)
  lt_next := by
    intro node hnode
    rcases List.mem_cons.mp hnode with rfl | hnode
    · exact Nat.lt_succ_self _
    · exact Nat.lt_succ_of_lt (table.lt_next node hnode)

def modify (table : NodeTable α) (address : ℕ) (f : α → α) : NodeTable α where
  nodes := table.nodes.map fun node ↦ if node.1 = address then (node.1, f node.2) else node
  next := table.next
  nodup := by
    rw [List.map_map]
    convert table.nodup using 2
    funext node
    simp only [Function.comp_apply]
    split_ifs <;> rfl
  lt_next := by
    intro node hnode
    obtain ⟨old, hold, rfl⟩ := List.mem_map.mp hnode
    split_ifs <;> exact table.lt_next old hold

/-- The list after a node has been freed. -/
def erase (table : NodeTable α) (address : ℕ) : NodeTable α where
  nodes := table.nodes.filter fun node ↦ node.1 != address
  next := table.next
  nodup := table.nodup.sublist (List.filter_sublist.map _)
  lt_next := fun node hnode ↦ table.lt_next node (List.mem_filter.mp hnode).1

/-- The first node that satisfies the predicate, with its address. -/
def find? (table : NodeTable α) (p : α → Bool) : Option (ℕ × α) :=
  table.nodes.find? fun node ↦ p node.2

/-! ### What the operations do to the pointers -/

theorem lookup_eq_some_iff {nodes : List (ℕ × α)} (hnodup : (nodes.map Prod.fst).Nodup)
    {address : ℕ} {a : α} : nodes.lookup address = some a ↔ (address, a) ∈ nodes := by
  induction nodes with
  | nil => exact iff_of_false nofun not_mem_nil
  | cons node nodes ih =>
    obtain ⟨hfresh, hnodup⟩ := nodup_cons.mp hnodup
    rw [lookup_cons, mem_cons]
    by_cases hhere : address = node.1
    · have hrest : (address, a) ∉ nodes := fun hmem ↦
        hfresh (hhere ▸ mem_map_of_mem (f := Prod.fst) hmem)
      rw [beq_iff_eq.mpr hhere, or_iff_left hrest]
      exact ⟨fun h ↦ Prod.ext hhere (Option.some.inj h).symm,
        fun h ↦ congrArg some (congrArg Prod.snd h).symm⟩
    · have hne : (address, a) ≠ node := fun h ↦ hhere (congrArg Prod.fst h)
      rw [beq_eq_false_iff_ne.mpr hhere, or_iff_right hne]
      exact ih hnodup

variable (table : NodeTable α) (address other : ℕ)

theorem get?_eq_some_iff {a : α} : table.get? address = some a ↔ (address, a) ∈ table.nodes :=
  lookup_eq_some_iff table.nodup

theorem lt_next_of_get? {table : NodeTable α} {address : ℕ} {a : α}
    (hget : table.get? address = some a) : address < table.next :=
  table.lt_next _ ((table.get?_eq_some_iff address).mp hget)

/-- The next address is free. -/
theorem get?_next : table.get? table.next = none := by
  cases hget : table.get? table.next with
  | none => rfl
  | some a => exact absurd (lt_next_of_get? hget) (Nat.lt_irrefl _)

@[simp] theorem get?_push (a : α) :
    (table.push a).get? address = if address = table.next then some a else table.get? address := by
  rw [get?, push, lookup_cons]
  by_cases hnew : address = table.next
  · rw [beq_iff_eq.mpr hnew, if_pos hnew]
  · rw [beq_eq_false_iff_ne.mpr hnew, if_neg hnew]
    rfl

@[simp] theorem get?_modify (f : α → α) :
    (table.modify address f).get? other =
      if other = address then (table.get? other).map f else table.get? other := by
  have hnodes (nodes : List (ℕ × α)) :
      (nodes.map fun node ↦ if node.1 = address then (node.1, f node.2) else node).lookup other =
        if other = address then (nodes.lookup other).map f else nodes.lookup other := by
    induction nodes with
    | nil => simp
    | cons node nodes ih =>
      rw [map_cons, lookup_cons, lookup_cons, ih]
      by_cases hhere : node.1 = address
      · rw [if_pos hhere]
        by_cases hnode : other = node.1
        · rw [beq_iff_eq.mpr hnode, if_pos (hnode.trans hhere), if_pos (hnode.trans hhere)]
          rfl
        · rw [beq_eq_false_iff_ne.mpr hnode]
      · rw [if_neg hhere]
        by_cases hnode : other = node.1
        · rw [beq_iff_eq.mpr hnode, if_neg (hnode ▸ hhere), if_neg (hnode ▸ hhere)]
        · rw [beq_eq_false_iff_ne.mpr hnode]
  exact hnodes table.nodes

@[simp] theorem next_modify (f : α → α) : (table.modify address f).next = table.next := rfl

@[simp] theorem get?_erase :
    (table.erase address).get? other = if other = address then none else table.get? other := by
  have hnodes (nodes : List (ℕ × α)) :
      (nodes.filter fun node ↦ node.1 != address).lookup other =
        if other = address then none else nodes.lookup other := by
    induction nodes with
    | nil => simp
    | cons node nodes ih =>
      rw [filter_cons, lookup_cons]
      by_cases hhere : node.1 = address
      · rw [if_neg (by simpa using hhere), ih]
        by_cases hother : other = address
        · rw [if_pos hother, if_pos hother]
        · rw [if_neg hother, if_neg hother, beq_eq_false_iff_ne.mpr (hhere ▸ hother)]
      · rw [if_pos (by simpa using hhere), lookup_cons, ih]
        by_cases hnode : other = node.1
        · rw [beq_iff_eq.mpr hnode, if_neg (hnode ▸ hhere), if_neg (hnode ▸ hhere)]
        · rw [beq_eq_false_iff_ne.mpr hnode]
  exact hnodes table.nodes

/-- A store leaves alone what it does not change. -/
theorem map_get?_modify {β : Type} {f : α → α} {g : α → β} (hkeeps : ∀ a, g (f a) = g a) :
    ((table.modify address f).get? other).map g = (table.get? other).map g := by
  rw [get?_modify]
  split_ifs
  · rw [Option.map_map]
    congr 1
    funext a
    exact hkeeps a
  · rfl

/-- A store leaves every node where it is. -/
theorem isSome_get?_modify (f : α → α) :
    ((table.modify address f).get? other).isSome = (table.get? other).isSome := by
  rw [get?_modify]
  split_ifs
  · exact Option.isSome_map
  · rfl

variable {p : α → Bool}

theorem get?_of_find? {table : NodeTable α} {address : ℕ} {a : α}
    (hfind : table.find? p = some (address, a)) : table.get? address = some a ∧ p a = true := by
  rw [get?_eq_some_iff]
  have hsatisfied : p (address, a).2 = true :=
    List.find?_some (p := fun node : ℕ × α ↦ p node.2) hfind
  exact ⟨List.mem_of_find?_eq_some hfind, hsatisfied⟩

/-! ### Counting nodes -/

def count (table : NodeTable α) (p : α → Bool) : ℕ := table.nodes.countP fun node ↦ p node.2

theorem exists_get?_iff (table : NodeTable α) (p : α → Bool) :
    (table.nodes.any fun node ↦ p node.2) = true ↔
      ∃ address a, table.get? address = some a ∧ p a = true := by
  rw [any_eq_true]
  constructor
  · rintro ⟨⟨address, a⟩, hmem, hp⟩
    exact ⟨address, a, (table.get?_eq_some_iff address).mpr hmem, hp⟩
  · rintro ⟨address, a, hget, hp⟩
    exact ⟨(address, a), (table.get?_eq_some_iff address).mp hget, hp⟩

/-- The count depends on which addresses lead to a counted node only. -/
theorem count_congr {table table' : NodeTable α}
    (hsame : ∀ address, (table'.get? address).any p = (table.get? address).any p) :
    table'.count p = table.count p := by
  have hlength (table : NodeTable α) :
      table.count p = ((table.nodes.filter fun node ↦ p node.2).map Prod.fst).length := by
    rw [count, countP_eq_length_filter, length_map]
  have hnodup (table : NodeTable α) :
      ((table.nodes.filter fun node ↦ p node.2).map Prod.fst).Nodup :=
    table.nodup.sublist (filter_sublist.map _)
  have hmem (table : NodeTable α) (address : ℕ) :
      address ∈ (table.nodes.filter fun node ↦ p node.2).map Prod.fst ↔
        (table.get? address).any p = true := by
    simp [Option.any_eq_true, get?_eq_some_iff]
  rw [hlength, hlength]
  refine ((perm_ext_iff_of_nodup (hnodup table') (hnodup table)).mpr fun address ↦ ?_).length_eq
  rw [hmem, hmem, hsame]

theorem count_erase (table : NodeTable α) (address : ℕ) (p : α → Bool) :
    (table.erase address).count p + ((table.get? address).any p).toNat = table.count p := by
  have hnodes (nodes : List (ℕ × α)) (hnodup : (nodes.map Prod.fst).Nodup) :
      (nodes.filter fun node ↦ node.1 != address).countP (fun node ↦ p node.2) +
        ((nodes.lookup address).any p).toNat = nodes.countP fun node ↦ p node.2 := by
    induction nodes with
    | nil => rfl
    | cons node nodes ih =>
      obtain ⟨hfresh, hnodup⟩ := nodup_cons.mp hnodup
      specialize ih hnodup
      rw [filter_cons, lookup_cons, countP_cons]
      by_cases hhere : address = node.1
      · -- The address leads to no other node.
        have hnone : nodes.lookup address = none := by
          refine Option.eq_none_iff_forall_ne_some.mpr fun a hget ↦ hfresh ?_
          exact hhere ▸ mem_map_of_mem (f := Prod.fst) ((lookup_eq_some_iff hnodup).mp hget)
        rw [hnone] at ih
        rw [if_neg (by simp [hhere]), beq_iff_eq.mpr hhere, ← ih]
        cases hp : p node.2 <;> simp [hp]
      · rw [if_pos (by simpa using Ne.symm hhere), beq_eq_false_iff_ne.mpr hhere, countP_cons, ← ih]
        exact Nat.add_right_comm ..
  exact hnodes table.nodes table.nodup

/-- Tables that differ at one address only. -/
theorem count_of_others {table table' : NodeTable α} {address : ℕ}
    (hothers : ∀ other, other ≠ address → table'.get? other = table.get? other) :
    table'.count p + ((table.get? address).any p).toNat =
      table.count p + ((table'.get? address).any p).toNat := by
  have hrest : (table'.erase address).count p = (table.erase address).count p := by
    refine count_congr fun other ↦ ?_
    rw [get?_erase, get?_erase]
    split_ifs with hsame
    · rfl
    · rw [hothers other hsame]
  rw [← count_erase table' address p, ← count_erase table address p, hrest]
  omega

end NodeTable

end WisCam.Foundations
