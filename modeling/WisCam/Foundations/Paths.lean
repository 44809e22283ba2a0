import Mathlib.Logic.Relation

/-!
# Paths of labelled steps

A path is a sequence of steps of a labelled relation, with the label of every step and the state in
which the step is taken. A property may hold in every state of a path although some step of the
relation destroys it. If each step, taken where the property holds, keeps it exactly when the step
is a good one, then the property holds along a path exactly when all steps of the path are good
(`Path.always_iff`).
-/

set_option autoImplicit false

namespace WisCam.Foundations

open List

variable {Label σ : Type}

/-- A sequence of steps, each with its label and the state before it. -/
inductive Path (R : Label → σ → σ → Prop) : σ → List (Label × σ) → σ → Prop
  | nil (s : σ) : Path R s [] s
  | cons {label : Label} {s s' s'' : σ} {steps : List (Label × σ)} (hstep : R label s s')
      (hrest : Path R s' steps s'') : Path R s ((label, s) :: steps) s''

/-- The property holds in every state of a path: before each step and at the end. -/
structure Always (I : σ → Prop) (steps : List (Label × σ)) (last : σ) : Prop where
  before : ∀ step ∈ steps, I step.2
  last : I last

variable {R : Label → σ → σ → Prop} {s s' s'' : σ} {steps steps' : List (Label × σ)}
  {I J : σ → Prop} {G : Label → σ → Prop}

theorem Path.single {label : Label} (hstep : R label s s') : Path R s [(label, s)] s' :=
  .cons hstep (.nil s')

theorem Path.append (hpath : Path R s steps s') (hrest : Path R s' steps' s'') :
    Path R s (steps ++ steps') s'' := by
  induction hpath with
  | nil s => exact hrest
  | cons hstep _ ih => exact .cons hstep (ih hrest)

/-- What is known of the labels of a path can be used in each of its steps. -/
theorem Path.restrict {P : Label → Prop} (hpath : Path R s steps s')
    (hlabels : ∀ step ∈ steps, P step.1) :
    Path (fun label s s' ↦ P label ∧ R label s s') s steps s' := by
  induction hpath with
  | nil s => exact .nil s
  | cons hstep _ ih =>
    exact .cons ⟨hlabels _ mem_cons_self, hstep⟩
      (ih fun step hmem ↦ hlabels step (mem_cons_of_mem _ hmem))

/-- Steps whose labels are not known are the steps of a path. -/
theorem exists_path (hsteps : Relation.ReflTransGen (fun s s' ↦ ∃ label, R label s s') s s') :
    ∃ steps, Path R s steps s' := by
  induction hsteps with
  | refl => exact ⟨[], .nil s⟩
  | tail _ hlast ih =>
    obtain ⟨steps, hpath⟩ := ih
    obtain ⟨label, hstep⟩ := hlast
    exact ⟨_, hpath.append (.single hstep)⟩

/-- Labels that are executed one after the other are those of a path. -/
theorem exists_path_of_foldlM {step : σ → Label → Option σ}
    (hstep : ∀ {s label s'}, step s label = some s' → R label s s') {labels : List Label}
    (hrun : labels.foldlM step s = some s') :
    ∃ steps, Path R s steps s' ∧ steps.map Prod.fst = labels := by
  induction labels generalizing s with
  | nil =>
    cases hrun
    exact ⟨[], .nil s', rfl⟩
  | cons label labels ih =>
    rw [foldlM_cons] at hrun
    obtain ⟨next, hnext, hrest⟩ := Option.bind_eq_some_iff.mp hrun
    obtain ⟨steps, hpath, hlabels⟩ := ih hrest
    refine ⟨(label, s) :: steps, .cons (hstep hnext) hpath, ?_⟩
    rw [map_cons, hlabels]

theorem always_nil (hlast : I s) : @Always Label σ I [] s :=
  ⟨fun _ hmem ↦ absurd hmem not_mem_nil, hlast⟩

theorem always_cons {label : Label} :
    Always I ((label, s) :: steps) s' ↔ I s ∧ Always I steps s' := by
  constructor
  · intro halways
    exact ⟨halways.before _ mem_cons_self,
      fun step hmem ↦ halways.before step (mem_cons_of_mem _ hmem), halways.last⟩
  · rintro ⟨hfirst, halways⟩
    refine ⟨fun step hmem ↦ ?_, halways.last⟩
    rcases mem_cons.mp hmem with rfl | hmem
    · exact hfirst
    · exact halways.before step hmem

/-- The first state of a path is one of its states. -/
theorem Path.head (hpath : Path R s steps s') (halways : Always I steps s') : I s := by
  cases hpath with
  | nil => exact halways.last
  | cons => exact (always_cons.mp halways).1

theorem always_mono (halways : Always I steps s') (himp : ∀ {s}, I s → J s) :
    Always J steps s' :=
  ⟨fun step hmem ↦ himp (halways.before step hmem), himp halways.last⟩

theorem always_and :
    Always (fun s ↦ I s ∧ J s) steps s' ↔ Always I steps s' ∧ Always J steps s' := by
  constructor
  · exact fun hboth ↦ ⟨always_mono hboth And.left, always_mono hboth And.right⟩
  · rintro ⟨hI, hJ⟩
    exact ⟨fun step hmem ↦ ⟨hI.before step hmem, hJ.before step hmem⟩, hI.last, hJ.last⟩

theorem always_congr {K : σ → Prop} (hJ : Always J steps s') (hsame : ∀ {s}, J s → (I s ↔ K s)) :
    Always I steps s' ↔ Always K steps s' := by
  constructor
  · intro hI
    exact always_mono (always_and.mpr ⟨hJ, hI⟩) fun hs ↦ (hsame hs.1).mp hs.2
  · intro hK
    exact always_mono (always_and.mpr ⟨hJ, hK⟩) fun hs ↦ (hsame hs.1).mpr hs.2

/-- What good steps preserve holds along a path of good steps. -/
theorem Path.always_of_good (hpath : Path R s steps s')
    (hkeeps : ∀ {label s s'}, R label s s' → G label s → I s → I s')
    (hgood : ∀ step ∈ steps, G step.1 step.2) (hs : I s) : Always I steps s' := by
  induction hpath with
  | nil s => exact always_nil hs
  | cons hstep _ ih =>
    have hnext := hkeeps hstep (hgood _ mem_cons_self) hs
    exact always_cons.mpr ⟨hs, ih (fun step hmem ↦ hgood step (mem_cons_of_mem _ hmem)) hnext⟩

/-- What every step preserves holds along every path. -/
theorem Path.always (hpath : Path R s steps s')
    (hkeeps : ∀ {label s s'}, R label s s' → I s → I s') (hs : I s) : Always I steps s' :=
  hpath.always_of_good (G := fun _ _ ↦ True) (fun hstep _ ↦ hkeeps hstep)
    (fun _ _ ↦ trivial) hs

/-- A property that each step keeps exactly when it is good holds along a path exactly when all its
steps are good. The invariant `J`, which every step keeps, may be used to say so. -/
theorem Path.always_iff (hpath : Path R s steps s')
    (hinv : ∀ {label s s'}, R label s s' → J s → J s')
    (hexact : ∀ {label s s'}, R label s s' → J s → I s → (I s' ↔ G label s))
    (hJ : J s) (hI : I s) : Always I steps s' ↔ ∀ step ∈ steps, G step.1 step.2 := by
  constructor
  · intro halways
    induction hpath with
    | nil s => exact fun _ hmem ↦ absurd hmem not_mem_nil
    | cons hstep hrest ih =>
      obtain ⟨-, halways⟩ := always_cons.mp halways
      have hnext := hrest.head halways
      intro step hmem
      rcases mem_cons.mp hmem with rfl | hmem
      · exact (hexact hstep hJ hI).mp hnext
      · exact ih (hinv hstep hJ) hnext halways step hmem
  · intro hgood
    have hboth := hpath.always_of_good (I := fun s ↦ J s ∧ I s) (fun hstep hgood hs ↦
      ⟨hinv hstep hs.1, (hexact hstep hs.1 hs.2).mpr hgood⟩) hgood ⟨hJ, hI⟩
    exact always_mono hboth And.right

end WisCam.Foundations
