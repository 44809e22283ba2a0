import Mathlib.Logic.Relation

/-!
# Programs over a state

A program changes a state and returns, or stops at a fault; the state it leaves behind remains in
both cases. `Ensures R F m s Q` says that from the state `s` the program `m` changes the state only
by steps of the relation `R`, that `Q` holds of what it returns and of the state then, and that `F`
holds of the fault it stops at. There is one rule for each way of building a program, so that the
statement about a program is assembled from those about its parts. An invariant of `R` is then an
invariant of every program (`holds_of_steps`). `Yields m s Q E` says what holds at the end, where
`E` speaks of the state at a fault as well.

`Causal` is a property of histories: everything in the history is justified by what was in it
before.
-/

set_option autoImplicit false

namespace WisCam.Foundations

open List

/-! ### Programs -/

/-- A computation on the state `σ` that returns an `α` or stops at a fault. -/
def Program (ε σ α : Type) : Type := σ → Except ε α × σ

namespace Program

variable {ε σ α β : Type}

instance : Monad (Program ε σ) where
  pure a := fun s ↦ (.ok a, s)
  bind m f := fun s ↦
    match m s with
    | (.ok a, s') => f a s'
    | (.error e, s') => (.error e, s')

def get : Program ε σ σ := fun s ↦ (.ok s, s)

def modify (f : σ → σ) : Program ε σ Unit := fun s ↦ (.ok (), f s)

def fault (e : ε) : Program ε σ α := fun s ↦ (.error e, s)

/-- Returns a value if there is one. -/
def ofOption (e : ε) : Option α → Program ε σ α
  | some a => pure a
  | none => fault e

theorem bind_apply (m : Program ε σ α) (f : α → Program ε σ β) (s : σ) :
    (m >>= f) s = match m s with
      | (.ok a, s') => f a s'
      | (.error e, s') => (.error e, s') := rfl

instance : LawfulMonad (Program ε σ) := by
  refine LawfulMonad.mk' (Program ε σ) (fun m ↦ ?_) (fun a f ↦ rfl) (fun m f g ↦ ?_)
  · funext s
    change (m >>= pure) s = m s
    rw [bind_apply]
    cases m s with
    | mk result s' => cases result <;> rfl
  · funext s
    simp only [bind_apply]
    cases m s with
    | mk result s' => cases result <;> rfl

variable {s' : σ}

@[simp] theorem pure_apply (a : α) (s : σ) : (pure a : Program ε σ α) s = (.ok a, s) := rfl

@[simp] theorem get_bind_apply (f : σ → Program ε σ β) (s : σ) : (get >>= f) s = f s s := rfl

/-- A loop whose first round returns goes on with the other rounds. -/
theorem forM_cons_apply {γ : Type} {f : γ → Program ε σ PUnit} {c : γ} {list : List γ} {s : σ}
    (hfirst : f c s = (.ok (), s')) : (c :: list).forM f s = list.forM f s' := by
  change (f c >>= fun _ ↦ list.forM f) s = _
  rw [bind_apply, hfirst]

variable {e : ε}

/-- A loop stops at the fault of its first round. -/
theorem forM_cons_error {γ : Type} {f : γ → Program ε σ PUnit} {c : γ} {list : List γ} {s : σ}
    (hfirst : f c s = (.error e, s')) : (c :: list).forM f s = (.error e, s') := by
  change (f c >>= fun _ ↦ list.forM f) s = _
  rw [bind_apply, hfirst]

/-! ### What a program ensures -/

variable {R : σ → σ → Prop} {F : ε → Prop}

/-- From the state `s` the program makes steps of `R` only, `Q` holds if it returns, and `F` holds
of the fault it stops at. -/
structure Ensures (R : σ → σ → Prop) (F : ε → Prop) (m : Program ε σ α) (s : σ)
    (Q : α → σ → Prop) : Prop where
  steps : Relation.ReflTransGen R s (m s).2
  post : ∀ a, (m s).1 = .ok a → Q a (m s).2
  faults : ∀ e, (m s).1 = .error e → F e

variable {m : Program ε σ α} {f : α → Program ε σ β} {s : σ} {Q : α → σ → Prop}
variable {Q' : β → σ → Prop}

/-- Only what the program does in the state `s` matters. -/
theorem Ensures.of_eq {p : Program ε σ α} (hp : Ensures R F p s Q) (heq : m s = p s) :
    Ensures R F m s Q := by
  obtain ⟨hsteps, hpost, hfaults⟩ := hp
  rw [← heq] at hsteps hpost hfaults
  exact ⟨hsteps, hpost, hfaults⟩

theorem ensures_pure {a : α} (hpost : Q a s) : Ensures R F (pure a : Program ε σ α) s Q :=
  ⟨.refl, fun _ h ↦ Except.ok.inj h ▸ hpost, nofun⟩

theorem ensures_fault (hfault : F e) : Ensures R F (fault e : Program ε σ α) s Q :=
  ⟨.refl, nofun, fun _ h ↦ Except.error.inj h ▸ hfault⟩

theorem ensures_bind (hfirst : Ensures R F m s Q)
    (hnext : ∀ a s', Relation.ReflTransGen R s s' → Q a s' → Ensures R F (f a) s' Q') :
    Ensures R F (m >>= f) s Q' := by
  obtain ⟨hsteps, hpost, hfaults⟩ := hfirst
  have hbind := bind_apply m f s
  cases hrun : m s with
  | mk result s' =>
    rw [hrun] at hsteps hpost hfaults hbind
    cases result with
    | error e =>
      refine Ensures.of_eq (p := fun _ ↦ (.error e, s')) ⟨hsteps, nofun, fun e' h ↦ ?_⟩ hbind
      exact hfaults e' (congrArg Except.error (Except.error.inj h))
    | ok a =>
      obtain ⟨hrest, hend, hlater⟩ := hnext a s' hsteps (hpost a rfl)
      exact Ensures.of_eq (p := fun _ ↦ f a s') ⟨hsteps.trans hrest, hend, hlater⟩ hbind

theorem ensures_get_bind {f : σ → Program ε σ β} (hnext : Ensures R F (f s) s Q') :
    Ensures R F (get >>= f) s Q' :=
  hnext.of_eq rfl

theorem ensures_modify {g : σ → σ} {Q : Unit → σ → Prop} (hstep : R s (g s)) (hpost : Q () (g s)) :
    Ensures R F (modify g : Program ε σ Unit) s Q :=
  ⟨.single hstep, fun _ _ ↦ hpost, nofun⟩

theorem ensures_modify_bind {g : σ → σ} {f : Unit → Program ε σ β} (hstep : R s (g s))
    (hnext : Ensures R F (f ()) (g s) Q') : Ensures R F (modify g >>= f) s Q' :=
  ⟨.head hstep hnext.steps, hnext.post, hnext.faults⟩

theorem ensures_ofOption_bind {o : Option α} (hfault : F e)
    (hnext : ∀ a, o = some a → Ensures R F (f a) s Q') :
    Ensures R F ((ofOption e o : Program ε σ α) >>= f) s Q' := by
  cases o with
  | none => exact ⟨.refl, nofun, fun _ h ↦ Except.error.inj h ▸ hfault⟩
  | some a => exact (hnext a rfl).of_eq rfl

theorem Ensures.imp {P : α → σ → Prop} (hm : Ensures R F m s P)
    (himp : ∀ a s', Relation.ReflTransGen R s s' → P a s' → Q a s') : Ensures R F m s Q :=
  ⟨hm.steps, fun a h ↦ himp a _ hm.steps (hm.post a h), hm.faults⟩

/-- What holds if the program returns may refer to what it returns. -/
theorem Ensures.returns (hm : Ensures R F m s Q) :
    Ensures R F m s fun a s' ↦ m s = (.ok a, s') ∧ Q a s' :=
  ⟨hm.steps, fun a h ↦ ⟨Prod.ext h rfl, hm.post a h⟩, hm.faults⟩

/-- The program makes steps of `R` only, and `F` holds of the fault it stops at. -/
abbrev Makes (R : σ → σ → Prop) (F : ε → Prop) (m : Program ε σ α) (s : σ) : Prop :=
  Ensures R F m s fun _ _ ↦ True

theorem Ensures.makes (hm : Ensures R F m s Q) : Makes R F m s := hm.imp fun _ _ _ _ ↦ trivial

theorem Ensures.mono {R' : σ → σ → Prop} (hm : Ensures R F m s Q)
    (hsteps : ∀ {a b}, R a b → R' a b) : Ensures R' F m s Q :=
  ⟨hm.steps.lift id fun _ _ ↦ hsteps, hm.post, hm.faults⟩

/-- The whole program counts as one step. -/
theorem Ensures.whole {R' : σ → σ → Prop} (hm : Ensures R F m s Q) (hstep : R' s (m s).2) :
    Ensures R' F m s Q :=
  ⟨.single hstep, hm.post, hm.faults⟩

theorem makes_bind (hfirst : Makes R F m s)
    (hnext : ∀ a s', Relation.ReflTransGen R s s' → Ensures R F (f a) s' Q') :
    Ensures R F (m >>= f) s Q' :=
  ensures_bind hfirst fun a s' hsteps _ ↦ hnext a s' hsteps

theorem ensures_forM {γ : Type} {f : γ → Program ε σ PUnit} {list : List γ}
    (hstep : ∀ c ∈ list, ∀ s', Relation.ReflTransGen R s s' → Makes R F (f c) s') :
    Makes R F (list.forM f) s := by
  induction list generalizing s with
  | nil => exact ensures_pure trivial
  | cons c list ih =>
    refine makes_bind (hstep c (mem_cons_self ..) s .refl) fun _ s' hs' ↦ ?_
    exact ih fun c' hc' s'' hs'' ↦ hstep c' (mem_cons_of_mem _ hc') s'' (hs'.trans hs'')

/-! ### What the outcome of a program is -/

/-- From the state `s` the program returns and `Q` holds of what it returns and of the state then,
or it stops at a fault and `E` holds of the fault and of the state then. -/
def Yields (m : Program ε σ α) (s : σ) (Q : α → σ → Prop) (E : ε → σ → Prop) : Prop :=
  match m s with
  | (.ok a, s') => Q a s'
  | (.error e, s') => E e s'

variable {E E' : ε → σ → Prop}

theorem yields_pure {a : α} (hpost : Q a s) : Yields (pure a : Program ε σ α) s Q E := hpost

theorem yields_fault (hfault : E e s) : Yields (fault e : Program ε σ α) s Q E := hfault

theorem yields_bind (hm : Yields m s (fun a s' ↦ Yields (f a) s' Q' E) E) :
    Yields (m >>= f) s Q' E := by
  rw [Yields, bind_apply]
  rw [Yields] at hm
  cases hrun : m s with
  | mk result s' =>
    rw [hrun] at hm
    cases result with
    | ok a => exact hm
    | error e => exact hm

theorem yields_get_bind {f : σ → Program ε σ β} (hnext : Yields (f s) s Q' E) :
    Yields (get >>= f) s Q' E := hnext

theorem Yields.imp {P : α → σ → Prop} (hm : Yields m s P E) (hpost : ∀ {a s'}, P a s' → Q a s')
    (hfault : ∀ {e s'}, E e s' → E' e s') : Yields m s Q E' := by
  rw [Yields] at hm ⊢
  cases hrun : m s with
  | mk result s' =>
    rw [hrun] at hm
    cases result with
    | ok a => exact hpost hm
    | error e => exact hfault hm

theorem Yields.of_ok {a : α} (hm : Yields m s Q E) (hrun : m s = (.ok a, s')) : Q a s' := by
  rw [Yields, hrun] at hm
  exact hm

theorem Yields.of_error (hm : Yields m s Q E) (hrun : m s = (.error e, s')) : E e s' := by
  rw [Yields, hrun] at hm
  exact hm

end Program

/-! ### Invariants and histories -/

/-- What a step preserves, a sequence of steps preserves. -/
theorem holds_of_steps {σ : Type} {R : σ → σ → Prop} {I : σ → Prop}
    (hstep : ∀ {a b}, R a b → I a → I b) {a b : σ} (hsteps : Relation.ReflTransGen R a b)
    (ha : I a) : I b := by
  induction hsteps with
  | refl => exact ha
  | tail _ hlast ih => exact hstep hlast ih

/-- Every entry of a history, oldest first, is justified by the entries before it. -/
def Causal {α : Type} (J : List α → α → Prop) (history : List α) : Prop :=
  ∀ earlier entry later, history = earlier ++ entry :: later → J earlier entry

theorem causal_nil {α : Type} {J : List α → α → Prop} : Causal J [] := by
  intro earlier entry later h
  exact absurd h.symm (by simp)

theorem causal_append {α : Type} {J : List α → α → Prop} {history : List α} {entry : α}
    (hcausal : Causal J history) (hentry : J history entry) : Causal J (history ++ [entry]) := by
  intro earlier entry' later h
  rcases eq_nil_or_concat later with rfl | ⟨later, last, rfl⟩
  · obtain ⟨rfl, hlast⟩ := append_inj' h rfl
    obtain rfl := (List.cons.inj hlast).1
    exact hentry
  · rw [concat_eq_append, ← cons_append, ← append_assoc] at h
    exact hcausal earlier entry' later (append_inj' h rfl).1

theorem causal_mono {α : Type} {J J' : List α → α → Prop} {history : List α}
    (hcausal : Causal J history) (himp : ∀ earlier entry, J earlier entry → J' earlier entry) :
    Causal J' history :=
  fun earlier entry later h ↦ himp earlier entry (hcausal earlier entry later h)

end WisCam.Foundations
