import Mathlib.Logic.Function.Basic

/-!
# Owners, their parts and their handles

A store of owners. An owner has slots, each of which may hold a part, and it may be registered under
a handle. All of them are designated by addresses, and the pointers go both ways: an owner points to
its parts and to its handle, a part and a handle point back to their owner. `Sound` says that the
two directions agree, and each of the changes below keeps it.

A registered owner should have a part (`Filled`): the last part goes together with its owner and the
owner's handle.
-/

set_option autoImplicit false

namespace WisCam.Foundations

/-- What an owner points to. -/
structure Owner (Slot Address : Type) where
  part : Slot → Option Address
  handle : Option Address

/-- The owner at an address, and the owners that parts and handles point back to. -/
@[ext] structure Ownership (Slot Address : Type) where
  owner : Address → Option (Owner Slot Address)
  partOf : Address → Option Address
  handleOf : Address → Option Address

namespace Ownership

variable {Slot Address : Type}

/-- The owner has the part in a slot. -/
def Holds (g : Ownership Slot Address) (o : Address) (t : Slot) (p : Address) : Prop :=
  ∃ own, g.owner o = some own ∧ own.part t = some p

/-- The owner points to the handle. -/
def Handled (g : Ownership Slot Address) (o h : Address) : Prop :=
  ∃ own, g.owner o = some own ∧ own.handle = some h

/-- The pointers agree in both directions, and no part is in two slots. -/
structure Sound (g : Ownership Slot Address) : Prop where
  partOf_iff : ∀ p o, g.partOf p = some o ↔ ∃ t, g.Holds o t p
  slot_inj : ∀ o t t' p, g.Holds o t p → g.Holds o t' p → t = t'
  handleOf_iff : ∀ h o, g.handleOf h = some o ↔ g.Handled o h

/-- The owner has a part. -/
def Filled (g : Ownership Slot Address) (o : Address) : Prop := ∃ t p, g.Holds o t p

/-- The owner is there and is not registered. -/
def Unhandled (g : Ownership Slot Address) (o : Address) : Prop :=
  ∃ own, g.owner o = some own ∧ own.handle = none

theorem holds_iff {g : Ownership Slot Address} {o p : Address} {t : Slot}
    {own : Owner Slot Address} (howner : g.owner o = some own) :
    g.Holds o t p ↔ own.part t = some p := by
  simp [Holds, howner]

theorem handled_iff {g : Ownership Slot Address} {o h : Address} {own : Owner Slot Address}
    (howner : g.owner o = some own) : g.Handled o h ↔ own.handle = some h := by
  simp [Handled, howner]

/-! ### The changes -/

section Changes

variable [DecidableEq Address] (g : Ownership Slot Address) (o : Address)
  (own : Owner Slot Address)

def addOwner : Ownership Slot Address :=
  { g with owner := Function.update g.owner o (some ⟨fun _ ↦ none, none⟩) }

/-- A new part in a slot of an owner. -/
def place [DecidableEq Slot] (t : Slot) (p : Address) : Ownership Slot Address :=
  { g with
    owner := Function.update g.owner o
      (some { own with part := Function.update own.part t (some p) })
    partOf := Function.update g.partOf p (some o) }

/-- A part is taken out of its slot and freed. -/
def take [DecidableEq Slot] (t : Slot) (p : Address) : Ownership Slot Address :=
  { g with
    owner := Function.update g.owner o (some { own with part := Function.update own.part t none })
    partOf := Function.update g.partOf p none }

/-- An owner is registered under a new handle. -/
def register (h : Address) : Ownership Slot Address :=
  { g with
    owner := Function.update g.owner o (some { own with handle := some h })
    handleOf := Function.update g.handleOf h (some o) }

/-- An owner is freed, with its handle. -/
def close : Ownership Slot Address :=
  { g with
    owner := Function.update g.owner o none
    handleOf := fun h ↦ if own.handle = some h then none else g.handleOf h }

end Changes

variable [DecidableEq Address] {g : Ownership Slot Address} {o o' p p' h h' : Address}
  {own : Owner Slot Address} {t t' : Slot}

/-! ### What an owner has after a change -/

theorem holds_addOwner (hfresh : g.owner o = none) :
    (g.addOwner o).Holds o' t p ↔ g.Holds o' t p := by
  by_cases hsame : o' = o
  · simp [Holds, addOwner, hsame, hfresh]
  · simp [Holds, addOwner, hsame]

theorem handled_addOwner (hfresh : g.owner o = none) :
    (g.addOwner o).Handled o' h ↔ g.Handled o' h := by
  by_cases hsame : o' = o
  · simp [Handled, addOwner, hsame, hfresh]
  · simp [Handled, addOwner, hsame]

theorem holds_place [DecidableEq Slot] (howner : g.owner o = some own) (hfree : own.part t = none) :
    (g.place o own t p).Holds o' t' p' ↔ o' = o ∧ t' = t ∧ p' = p ∨ g.Holds o' t' p' := by
  by_cases hsame : o' = o
  · by_cases hslot : t' = t
    · simp [Holds, place, hsame, hslot, howner, hfree, eq_comm]
    · simp [Holds, place, hsame, hslot, howner]
  · simp [Holds, place, hsame]

theorem handled_place [DecidableEq Slot] (howner : g.owner o = some own) :
    (g.place o own t p).Handled o' h ↔ g.Handled o' h := by
  by_cases hsame : o' = o
  · simp [Handled, place, hsame, howner]
  · simp [Handled, place, hsame]

theorem holds_take [DecidableEq Slot] (howner : g.owner o = some own) :
    (g.take o own t p).Holds o' t' p' ↔ ¬ (o' = o ∧ t' = t) ∧ g.Holds o' t' p' := by
  by_cases hsame : o' = o
  · by_cases hslot : t' = t
    · simp [Holds, take, hsame, hslot]
    · simp [Holds, take, hsame, hslot, howner]
  · simp [Holds, take, hsame]

theorem handled_take [DecidableEq Slot] (howner : g.owner o = some own) :
    (g.take o own t p).Handled o' h ↔ g.Handled o' h := by
  by_cases hsame : o' = o
  · simp [Handled, take, hsame, howner]
  · simp [Handled, take, hsame]

theorem holds_register (howner : g.owner o = some own) :
    (g.register o own h).Holds o' t p ↔ g.Holds o' t p := by
  by_cases hsame : o' = o
  · simp [Holds, register, hsame, howner]
  · simp [Holds, register, hsame]

theorem handled_register (howner : g.owner o = some own) (hnone : own.handle = none) :
    (g.register o own h).Handled o' h' ↔ o' = o ∧ h' = h ∨ g.Handled o' h' := by
  by_cases hsame : o' = o
  · simp [Handled, register, hsame, howner, hnone, eq_comm]
  · simp [Handled, register, hsame]

theorem holds_close (howner : g.owner o = some own) (hempty : ∀ t, own.part t = none) :
    (g.close o own).Holds o' t p ↔ g.Holds o' t p := by
  by_cases hsame : o' = o
  · simp [Holds, close, hsame, howner, hempty]
  · simp [Holds, close, hsame]

theorem handled_close : (g.close o own).Handled o' h ↔ o' ≠ o ∧ g.Handled o' h := by
  by_cases hsame : o' = o
  · simp [Handled, close, hsame]
  · simp [Handled, close, hsame]

theorem unhandled_addOwner :
    (g.addOwner o).Unhandled o' ↔ o' = o ∨ g.Unhandled o' := by
  by_cases hsame : o' = o
  · simp [Unhandled, addOwner, hsame]
  · simp [Unhandled, addOwner, hsame]

theorem unhandled_place [DecidableEq Slot] (howner : g.owner o = some own) :
    (g.place o own t p).Unhandled o' ↔ g.Unhandled o' := by
  by_cases hsame : o' = o
  · simp [Unhandled, place, hsame, howner]
  · simp [Unhandled, place, hsame]

theorem unhandled_register : (g.register o own h).Unhandled o' ↔ o' ≠ o ∧ g.Unhandled o' := by
  by_cases hsame : o' = o
  · simp [Unhandled, register, hsame]
  · simp [Unhandled, register, hsame]

/-! ### Soundness -/

theorem Sound.addOwner (hsound : g.Sound) (hfresh : g.owner o = none) : (g.addOwner o).Sound where
  partOf_iff p o' := by
    simp only [holds_addOwner hfresh]
    exact hsound.partOf_iff p o'
  slot_inj o' t t' p := by
    simp only [holds_addOwner hfresh]
    exact hsound.slot_inj o' t t' p
  handleOf_iff h o' := by
    rw [handled_addOwner hfresh]
    exact hsound.handleOf_iff h o'

theorem Sound.place [DecidableEq Slot] (hsound : g.Sound) (howner : g.owner o = some own)
    (hfree : own.part t = none) (hfresh : g.partOf p = none) : (g.place o own t p).Sound := by
  have hunheld (o' : Address) (t' : Slot) : ¬ g.Holds o' t' p := by
    intro hholds
    have hback := (hsound.partOf_iff p o').mpr ⟨t', hholds⟩
    simp [hfresh] at hback
  constructor
  · intro p' o'
    simp only [holds_place howner hfree, exists_or, ← hsound.partOf_iff]
    by_cases hpart : p' = p
    · simp [Ownership.place, hpart, hfresh, eq_comm]
    · simp [Ownership.place, hpart]
  · intro o' t₁ t₂ p'
    simp only [holds_place howner hfree]
    rintro (⟨-, rfl, rfl⟩ | hfirst) (⟨-, rfl, hpart⟩ | hsecond)
    · rfl
    · exact absurd hsecond (hunheld _ _)
    · subst hpart
      exact absurd hfirst (hunheld _ _)
    · exact hsound.slot_inj o' t₁ t₂ p' hfirst hsecond
  · intro h o'
    rw [handled_place howner]
    exact hsound.handleOf_iff h o'

theorem Sound.take [DecidableEq Slot] (hsound : g.Sound) (howner : g.owner o = some own)
    (hpart : own.part t = some p) : (g.take o own t p).Sound := by
  have hholds : g.Holds o t p := (holds_iff howner).mpr hpart
  constructor
  · intro p' o'
    simp only [holds_take howner]
    by_cases hsame : p' = p
    · -- The part was in this slot of this owner only.
      subst hsame
      refine iff_of_false (by simp [Ownership.take]) ?_
      rintro ⟨t', hother, hholds'⟩
      have hback := (hsound.partOf_iff p' o').mpr ⟨t', hholds'⟩
      rw [(hsound.partOf_iff p' o).mpr ⟨t, hholds⟩] at hback
      obtain rfl := Option.some.inj hback
      exact hother ⟨rfl, hsound.slot_inj _ _ _ _ hholds' hholds⟩
    · have hkept : (g.take o own t p).partOf p' = g.partOf p' := by
        simp [Ownership.take, hsame]
      rw [hkept, hsound.partOf_iff]
      refine exists_congr fun t' ↦ ⟨fun hholds' ↦ ⟨?_, hholds'⟩, And.right⟩
      rintro ⟨rfl, rfl⟩
      rw [holds_iff howner, hpart] at hholds'
      exact hsame (Option.some.inj hholds').symm
  · intro o' t₁ t₂ p'
    simp only [holds_take howner]
    exact fun hfirst hsecond ↦ hsound.slot_inj o' t₁ t₂ p' hfirst.2 hsecond.2
  · intro h o'
    rw [handled_take howner]
    exact hsound.handleOf_iff h o'

theorem Sound.register (hsound : g.Sound) (howner : g.owner o = some own)
    (hnone : own.handle = none) (hfresh : g.handleOf h = none) : (g.register o own h).Sound := by
  constructor
  · intro p o'
    simp only [holds_register howner]
    exact hsound.partOf_iff p o'
  · intro o' t t' p
    simp only [holds_register howner]
    exact hsound.slot_inj o' t t' p
  · intro h' o'
    rw [handled_register howner hnone, ← hsound.handleOf_iff]
    by_cases hhandle : h' = h
    · simp [Ownership.register, hhandle, hfresh, eq_comm]
    · simp [Ownership.register, hhandle]

theorem Sound.close (hsound : g.Sound) (howner : g.owner o = some own)
    (hempty : ∀ t, own.part t = none) : (g.close o own).Sound := by
  constructor
  · intro p o'
    simp only [holds_close howner hempty]
    exact hsound.partOf_iff p o'
  · intro o' t t' p
    simp only [holds_close howner hempty]
    exact hsound.slot_inj o' t t' p
  · intro h o'
    rw [handled_close]
    by_cases hown : own.handle = some h
    · have hback := (hsound.handleOf_iff h o).mpr ((handled_iff howner).mpr hown)
      refine iff_of_false (by simp [Ownership.close, hown]) ?_
      rintro ⟨hother, hhandled⟩
      rw [← hsound.handleOf_iff, hback] at hhandled
      exact hother (Option.some.inj hhandled).symm
    · have hkept : (g.close o own).handleOf h = g.handleOf h := by simp [Ownership.close, hown]
      rw [hkept, hsound.handleOf_iff]
      refine ⟨fun hhandled ↦ ⟨?_, hhandled⟩, And.right⟩
      rintro rfl
      exact hown ((handled_iff howner).mp hhandled)

end Ownership

end WisCam.Foundations
