import Mathlib.Data.List.Basic
import Mathlib.Tactic.Common

/-!
# Runs of a machine that reads inputs and emits outputs

A machine is a relation `step s i os s'`: in state `s` it may read the input
`i`, emit the outputs `os` in order and go to `s'`. A `Run` is a finite
sequence of such steps, labelled with all the inputs it read and all the
outputs it emitted.

What a whole run preserves follows from what one step preserves, and the
inductions are done here once: an invariant (`Run.invariant`), also of what has
been read and emitted (`Run.invariant_history`), a conserved quantity that
inputs feed and outputs drain (`Run.conserved`), a simulation in either
direction (`Run.simulate`, `Run.exists_run`, `Run.lift`) or of what is seen of
the machine (`Run.project`), and the comparison of two conditions on the steps
of a run (`Run.where_congr`), or of one with what the run emits
(`Run.where_iff_outputs`) or with a quantity that what it emits bounds
(`Run.where_iff_length`).
-/

variable {σ ι ω σ' ι' ω' : Type*}

/-- A machine: which outputs and which next state an input may lead to. -/
abbrev Machine (σ ι ω : Type*) := σ → ι → List ω → σ → Prop

/-- **A run**: the state it starts in, the inputs it reads, the outputs it
emits and the state it ends in. -/
inductive Run (step : Machine σ ι ω) : σ → List ι → List ω → σ → Prop
  /-- The run of no step. -/
  | nil (s : σ) : Run step s [] [] s
  /-- One step, then a run. -/
  | cons {s t u : σ} {i : ι} {is : List ι} {os os' : List ω} :
      step s i os t → Run step t is os' u → Run step s (i :: is) (os ++ os') u

/-- The steps of a machine that also satisfy a condition. -/
def Machine.where (step : Machine σ ι ω) (C : Machine σ ι ω) : Machine σ ι ω :=
  fun s i os s' => step s i os s' ∧ C s i os s'

namespace Run

variable {step : Machine σ ι ω} {s t u : σ} {is js : List ι} {os ps : List ω}

/-- A single step is a run. -/
theorem single {i : ι} (h : step s i os t) : Run step s [i] os t := by
  simpa using Run.cons h (Run.nil t)

/-- **Runs compose.** -/
theorem append (h : Run step s is os t) (h' : Run step t js ps u) :
    Run step s (is ++ js) (os ++ ps) u := by
  induction h with
  | nil s => exact h'
  | cons hs _ ih =>
    rw [List.cons_append, List.append_assoc]
    exact Run.cons hs (ih h')

/-- **A run over a concatenation splits** where the inputs do. -/
theorem exists_of_append (h : Run step s (is ++ js) os u) :
    ∃ t ps qs, Run step s is ps t ∧ Run step t js qs u ∧ os = ps ++ qs := by
  induction is generalizing s os with
  | nil => exact ⟨s, [], os, Run.nil s, h, rfl⟩
  | cons i is ih =>
    cases h with
    | cons hs hrest =>
      obtain ⟨t, ps, qs, hp, hq, rfl⟩ := ih hrest
      exact ⟨t, _, qs, Run.cons hs hp, hq, (List.append_assoc _ _ _).symm⟩

/-- A run over one input is one step. -/
theorem step_of_single {i : ι} (h : Run step s [i] os t) : step s i os t := by
  cases h with
  | cons hs hrest =>
    cases hrest
    rwa [List.append_nil]

/-- A run whose steps are steps of a larger machine is a run of it. -/
theorem mono {step' : Machine σ ι ω}
    (h : ∀ s i os s', step s i os s' → step' s i os s') :
    Run step s is os t → Run step' s is os t := by
  intro hr
  induction hr with
  | nil s => exact Run.nil s
  | cons hs _ ih => exact Run.cons (h _ _ _ _ hs) ih

/-- Forgetting the condition on the steps of a run. -/
theorem of_where {C : Machine σ ι ω} (h : Run (step.where C) s is os t) :
    Run step s is os t :=
  h.mono (fun _ _ _ _ hs => hs.1)

/-- A condition that every input meets is met by every step. -/
theorem where_of_forall {C : Machine σ ι ω} (h : ∀ i ∈ is, ∀ s os s', C s i os s')
    (hr : Run step s is os t) : Run (step.where C) s is os t := by
  induction hr with
  | nil s => exact Run.nil s
  | cons hs _ ih =>
    obtain ⟨hi, hrest⟩ := List.forall_mem_cons.mp h
    exact Run.cons ⟨hs, hi _ _ _⟩ (ih hrest)

/-! ## What a run preserves -/

/-- **An invariant of every step is an invariant of every run.** -/
theorem invariant {Inv : σ → Prop}
    (h : ∀ s i os s', Inv s → step s i os s' → Inv s') (h₀ : Inv s)
    (hr : Run step s is os t) : Inv t := by
  induction hr with
  | nil s => exact h₀
  | cons hs _ ih => exact ih (h _ _ _ _ h₀ hs)

/-- **An invariant of the state and of all that has been read and emitted on
the way to it.** -/
theorem invariant_history (Inv : List ι → List ω → σ → Prop)
    (h : ∀ is os s i os' s', Inv is os s → step s i os' s' → Inv (is ++ [i]) (os ++ os') s')
    (h₀ : Inv [] [] s) (hr : Run step s is os t) : Inv is os t := by
  have hgen : ∀ is₀ os₀, Inv is₀ os₀ s → Inv (is₀ ++ is) (os₀ ++ os) t := by
    clear h₀
    induction hr with
    | nil s =>
      intro is₀ os₀ h₀
      rwa [List.append_nil, List.append_nil]
    | cons hs _ ih =>
      intro is₀ os₀ h₀
      have hrest := ih _ _ (h _ _ _ _ _ _ h₀ hs)
      rwa [List.append_assoc, List.append_assoc] at hrest
  exact hgen [] [] h₀

/-- Every step of a run that starts in an invariant state starts in one. -/
theorem where_of_invariant {Inv : σ → Prop}
    (h : ∀ s i os s', Inv s → step s i os s' → Inv s') (h₀ : Inv s)
    (hr : Run step s is os t) :
    Run (step.where (fun s _ _ _ => Inv s)) s is os t := by
  induction hr with
  | nil s => exact Run.nil s
  | cons hs _ ih => exact Run.cons ⟨hs, h₀⟩ (ih (h _ _ _ _ h₀ hs))

/-- **What every step from an invariant state emits, every run emits.** -/
theorem forall_outputs {Inv : σ → Prop} {P : ω → Prop}
    (h : ∀ s i os s', Inv s → step s i os s' → Inv s' ∧ ∀ o ∈ os, P o) (h₀ : Inv s)
    (hr : Run step s is os t) : ∀ o ∈ os, P o := by
  induction hr with
  | nil s => exact fun o ho => absurd ho List.not_mem_nil
  | cons hs _ ih =>
    obtain ⟨hInv, hos⟩ := h _ _ _ _ h₀ hs
    exact List.forall_mem_append.mpr ⟨hos, ih hInv⟩

/-- **Conservation.** If every step keeps what it held and was given in what
it emitted and holds, so does every run – in the same order. -/
theorem conserved {α : Type*} {held : σ → List α} {given : ι → List α}
    {emitted : ω → List α}
    (h : ∀ s i os s', step s i os s' →
      held s ++ given i = os.flatMap emitted ++ held s')
    (hr : Run step s is os t) :
    held s ++ is.flatMap given = os.flatMap emitted ++ held t := by
  induction hr with
  | nil s => simp
  | cons hs _ ih =>
    rw [List.flatMap_cons, List.flatMap_append, ← List.append_assoc,
      h _ _ _ _ hs, List.append_assoc, ih, List.append_assoc]

/-- **Conservation between outputs.** If in every step what was held and the
outputs take in is what the outputs give away and is held afterwards, the same
is so of every run. -/
theorem conserved_outputs {α : Type*} {held : σ → List α} {taken gone : ω → List α}
    (h : ∀ s i os s', step s i os s' →
      held s ++ os.flatMap taken = os.flatMap gone ++ held s')
    (hr : Run step s is os t) :
    held s ++ os.flatMap taken = os.flatMap gone ++ held t := by
  induction hr with
  | nil s => simp
  | cons hs _ ih =>
    rw [List.flatMap_append, List.flatMap_append, ← List.append_assoc,
      h _ _ _ _ hs, List.append_assoc, ih, List.append_assoc]

/-- **Projection.** If every step on an input that the view does not see leaves
the view as it is and emits nothing that is seen, and every other step is, as
it is seen, a step of another machine, then every run is, as it is seen, a run
of the other machine. -/
theorem project {step' : Machine σ' ι' ω'} {Inv : σ → Prop} (view : σ → σ')
    (inp : ι → Option ι') (out : ω → Option ω')
    (hpres : ∀ s i os s', Inv s → step s i os s' → Inv s')
    (hskip : ∀ s i os s', Inv s → step s i os s' → inp i = none →
      view s' = view s ∧ os.filterMap out = [])
    (h : ∀ s i os s' i', Inv s → step s i os s' → inp i = some i' →
      step' (view s) i' (os.filterMap out) (view s'))
    (h₀ : Inv s) (hr : Run step s is os t) :
    Run step' (view s) (is.filterMap inp) (os.filterMap out) (view t) := by
  induction hr with
  | nil s => exact Run.nil _
  | @cons s t u i is os os' hs _ ih =>
    have hrest := ih (hpres _ _ _ _ h₀ hs)
    rw [List.filterMap_append]
    cases hi : inp i with
    | none =>
      obtain ⟨hview, hos⟩ := hskip _ _ _ _ h₀ hs hi
      rwa [List.filterMap_cons_none hi, hos, List.nil_append, ← hview]
    | some i' =>
      rw [List.filterMap_cons_some hi]
      exact Run.cons (h _ _ _ _ _ h₀ hs hi) hrest

/-- **Simulation.** If every step of a machine is, read through an
abstraction of its states, inputs and outputs, a step of another machine,
then every run is a run of the other machine. -/
theorem simulate {step' : Machine σ' ι' ω'} {Inv : σ → Prop} (abs : σ → σ')
    (inp : ι → ι') (out : ω → Option ω')
    (hpres : ∀ s i os s', Inv s → step s i os s' → Inv s')
    (h : ∀ s i os s', Inv s → step s i os s' →
      step' (abs s) (inp i) (os.filterMap out) (abs s'))
    (h₀ : Inv s) (hr : Run step s is os t) :
    Run step' (abs s) (is.map inp) (os.filterMap out) (abs t) := by
  rw [← List.filterMap_eq_map]
  refine hr.project abs (some ∘ inp) out hpres (fun _ _ _ _ _ _ hi => ?_)
    (fun s i os s' i' hs hst hi => ?_) h₀
  · exact absurd hi (Option.some_ne_none _)
  · exact Option.some.inj hi ▸ h s i os s' hs hst

/-- **A machine that leaves no choice** has one run on given inputs. -/
theorem deterministic
    (h : ∀ s i os t ps u, step s i os t → step s i ps u → os = ps ∧ t = u)
    (hr : Run step s is os t) (hr' : Run step s is ps u) : os = ps ∧ t = u := by
  induction hr generalizing ps u with
  | nil s =>
    cases hr'
    exact ⟨rfl, rfl⟩
  | cons hs _ ih =>
    cases hr' with
    | cons hs' hrest =>
      obtain ⟨rfl, rfl⟩ := h _ _ _ _ _ _ hs hs'
      obtain ⟨rfl, rfl⟩ := ih hrest
      exact ⟨rfl, rfl⟩

/-- **Simulation by runs.** If every step of a machine is, read through an
abstraction of its states, a run of another machine, then so is every run. -/
theorem exists_run {step' : Machine σ' ι' ω'} {Inv : σ → Prop} (abs : σ → σ')
    (hpres : ∀ s i os s', Inv s → step s i os s' → Inv s')
    (h : ∀ s i os s', Inv s → step s i os s' → ∃ is' os', Run step' (abs s) is' os' (abs s'))
    (h₀ : Inv s) (hr : Run step s is os t) : ∃ is' os', Run step' (abs s) is' os' (abs t) := by
  induction hr with
  | nil s => exact ⟨[], [], Run.nil _⟩
  | cons hs _ ih =>
    obtain ⟨is', os', hstep⟩ := h _ _ _ _ h₀ hs
    obtain ⟨js', ps', hrest⟩ := ih (hpres _ _ _ _ h₀ hs)
    exact ⟨_, _, hstep.append hrest⟩

/-- **Lifting.** If every step that the other machine takes from the
abstraction of a state is the abstraction of a step, so is every run. -/
theorem lift {step' : Machine σ' ι' ω'} {Inv : σ → Prop} (abs : σ → σ')
    (inp : ι' → ι) (out : ω → Option ω')
    (hpres : ∀ s i os s', Inv s → step s i os s' → Inv s')
    (h : ∀ s i os' t', Inv s → step' (abs s) i os' t' →
      ∃ os s', step s (inp i) os s' ∧ os.filterMap out = os' ∧ abs s' = t')
    (h₀ : Inv s) {is' : List ι'} {os' : List ω'} {t' : σ'}
    (hr : Run step' (abs s) is' os' t') :
    ∃ os t, Run step s (is'.map inp) os t ∧ os.filterMap out = os' ∧ abs t = t' := by
  generalize hx : abs s = x at hr
  induction hr generalizing s with
  | nil x => exact ⟨[], s, Run.nil s, rfl, hx⟩
  | cons hs _ ih =>
    subst hx
    obtain ⟨os, s₁, hs₁, rfl, hx₁⟩ := h _ _ _ _ h₀ hs
    obtain ⟨ps, t, ht, rfl, rfl⟩ := ih (hpres _ _ _ _ h₀ hs₁) hx₁
    exact ⟨os ++ ps, t, Run.cons hs₁ ht, List.filterMap_append, rfl⟩

/-! ## Conditions on the steps of a run -/

/-- Two conditions that agree on every step from an invariant state hold
along the same runs. The invariant may rest on the condition. -/
theorem where_congr_of {Inv : σ → Prop} {C D : Machine σ ι ω}
    (hpres : ∀ s i os s', Inv s → step s i os s' → C s i os s' → Inv s')
    (h : ∀ s i os s', Inv s → step s i os s' → (C s i os s' ↔ D s i os s'))
    (h₀ : Inv s) :
    Run (step.where C) s is os t ↔ Run (step.where D) s is os t := by
  constructor
  · intro hr
    induction hr with
    | nil s => exact Run.nil s
    | cons hst _ ih =>
      exact Run.cons ⟨hst.1, (h _ _ _ _ h₀ hst.1).mp hst.2⟩
        (ih (hpres _ _ _ _ h₀ hst.1 hst.2))
  · intro hr
    induction hr with
    | nil s => exact Run.nil s
    | cons hst _ ih =>
      have hC := (h _ _ _ _ h₀ hst.1).mpr hst.2
      exact Run.cons ⟨hst.1, hC⟩ (ih (hpres _ _ _ _ h₀ hst.1 hC))

/-- Two conditions that agree on every step from an invariant state hold
along the same runs. -/
theorem where_congr {Inv : σ → Prop} {C D : Machine σ ι ω}
    (hpres : ∀ s i os s', Inv s → step s i os s' → Inv s')
    (h : ∀ s i os s', Inv s → step s i os s' → (C s i os s' ↔ D s i os s'))
    (h₀ : Inv s) :
    Run (step.where C) s is os t ↔ Run (step.where D) s is os t :=
  where_congr_of (fun _ _ _ _ hs hst _ => hpres _ _ _ _ hs hst) h h₀

/-- The runs whose steps all emit outputs with a property are the runs whose
outputs all have it. -/
theorem where_forall_outputs {P : ω → Prop} :
    Run (step.where (fun _ _ os _ => ∀ o ∈ os, P o)) s is os t
      ↔ Run step s is os t ∧ ∀ o ∈ os, P o := by
  constructor
  · intro hr
    refine ⟨hr.of_where, ?_⟩
    induction hr with
    | nil s => exact fun o ho => absurd ho List.not_mem_nil
    | cons hs _ ih => exact List.forall_mem_append.mpr ⟨hs.2, ih⟩
  · rintro ⟨hr, hP⟩
    induction hr with
    | nil s => exact Run.nil s
    | cons hs _ ih =>
      obtain ⟨hhead, htail⟩ := List.forall_mem_append.mp hP
      exact Run.cons ⟨hs, hhead⟩ (ih htail)

/-- **A condition on the steps that is exact for a property of the outputs**
is exact for it along runs: the runs whose steps all meet the condition are
the runs whose outputs all have the property. The invariant may rest on the
condition. -/
theorem where_iff_outputs_of {Inv : σ → Prop} {C : σ → ι → Prop} {P : ω → Prop}
    (hpres : ∀ s i os s', Inv s → step s i os s' → C s i → Inv s')
    (h : ∀ s i os s', Inv s → step s i os s' → (C s i ↔ ∀ o ∈ os, P o))
    (h₀ : Inv s) :
    Run (step.where (fun s i _ _ => C s i)) s is os t
      ↔ Run step s is os t ∧ ∀ o ∈ os, P o :=
  (where_congr_of hpres h h₀).trans where_forall_outputs

/-- **A condition on the steps that is exact for a property of the outputs**
is exact for it along runs: the runs whose steps all meet the condition are
the runs whose outputs all have the property. -/
theorem where_iff_outputs {Inv : σ → Prop} {C : σ → ι → Prop} {P : ω → Prop}
    (hpres : ∀ s i os s', Inv s → step s i os s' → Inv s')
    (h : ∀ s i os s', Inv s → step s i os s' → (C s i ↔ ∀ o ∈ os, P o))
    (h₀ : Inv s) :
    Run (step.where (fun s i _ _ => C s i)) s is os t
      ↔ Run step s is os t ∧ ∀ o ∈ os, P o :=
  where_iff_outputs_of (fun _ _ _ _ hs hst _ => hpres _ _ _ _ hs hst) h h₀

section Length

variable {f : σ → ℕ} {Inv : σ → Prop}

/-- **A quantity that no step raises by more than it emits**, no run raises by
more. -/
theorem le_add_length (hpres : ∀ s i os s', Inv s → step s i os s' → Inv s')
    (h : ∀ s i os s', Inv s → step s i os s' → f s' ≤ f s + os.length) (h₀ : Inv s)
    (hr : Run step s is os t) : f t ≤ f s + os.length := by
  induction hr with
  | nil s => exact Nat.le_refl _
  | cons hs _ ih =>
    have hstep := h _ _ _ _ h₀ hs
    have hrest := ih (hpres _ _ _ _ h₀ hs)
    rw [List.length_append]
    omega

/-- **A condition that is exact for a step to raise a quantity by all that it
emits** is exact for it along runs. -/
theorem where_iff_length {C : Machine σ ι ω}
    (hpres : ∀ s i os s', Inv s → step s i os s' → Inv s')
    (h : ∀ s i os s', Inv s → step s i os s' →
      f s' ≤ f s + os.length ∧ (C s i os s' ↔ f s' = f s + os.length))
    (h₀ : Inv s) :
    Run (step.where C) s is os t ↔ Run step s is os t ∧ f t = f s + os.length := by
  constructor
  · intro hr
    refine ⟨hr.of_where, ?_⟩
    induction hr with
    | nil s => rfl
    | cons hst _ ih =>
      have hstep := (h _ _ _ _ h₀ hst.1).2.mp hst.2
      have hrest := ih (hpres _ _ _ _ h₀ hst.1)
      rw [List.length_append]
      omega
  · rintro ⟨hr, heq⟩
    induction hr with
    | nil s => exact Run.nil s
    | cons hs hrest ih =>
      have hInv := hpres _ _ _ _ h₀ hs
      have hle := (h _ _ _ _ h₀ hs).1
      -- neither the first step nor the rest can make up for the other
      have hle' := le_add_length hpres (fun s i os s' hi hst => (h s i os s' hi hst).1) hInv hrest
      rw [List.length_append] at heq
      have hstep := (h _ _ _ _ h₀ hs).2.mpr (by omega)
      exact Run.cons ⟨hs, hstep⟩ (ih hInv (by omega))

end Length

end Run
