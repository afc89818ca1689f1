import Mathlib.Data.List.Basic

/-! Runs of a labelled step relation, with the labels kept in order. The rules
below are the only inductions over runs. -/

section
variable {S L : Type}

/-- The steps from one state to another along a list of labels. -/
inductive Runs (step : S → L → S → Prop) (start : S) : List L → S → Prop where
  | nil : Runs step start [] start
  | snoc {labels : List L} {middle : S} {label : L} {finish : S}
      (prior : Runs step start labels middle) (last : step middle label finish) :
      Runs step start (labels ++ [label]) finish

namespace Runs
variable {step : S → L → S → Prop} {start middle finish : S} {labels : List L}

theorem single {label : L} (h : step start label finish) : Runs step start [label] finish :=
  snoc nil h

/-- Concatenate two runs. -/
theorem trans {front back : List L} (left : Runs step start front middle)
    (right : Runs step middle back finish) : Runs step start (front ++ back) finish := by
  induction right with
  | nil => simpa using left
  | snoc prior last ih =>
      rw [← List.append_assoc]
      exact snoc ih last

/-- A run along two lists of labels passes a state between them. -/
theorem split {front back : List L} (run : Runs step start (front ++ back) finish) :
    ∃ middle, Runs step start front middle ∧ Runs step middle back finish := by
  generalize hLabels : front ++ back = labels at run
  induction run generalizing back with
  | nil =>
      obtain ⟨rfl, rfl⟩ := List.append_eq_nil_iff.mp hLabels
      exact ⟨start, nil, nil⟩
  | @snoc labels middle label finish prior last ih =>
      rcases List.eq_nil_or_concat back with rfl | ⟨back, other, rfl⟩
      · rw [List.append_nil] at hLabels
        subst hLabels
        exact ⟨finish, snoc prior last, nil⟩
      · rw [List.concat_eq_append, ← List.append_assoc] at hLabels
        obtain ⟨rfl, hLabel⟩ := List.append_inj' hLabels rfl
        obtain rfl := (List.cons.inj hLabel).1
        obtain ⟨between, left, right⟩ := ih rfl
        rw [List.concat_eq_append]
        exact ⟨between, left, snoc right last⟩

theorem eq_of_nil (run : Runs step start [] finish) : finish = start := by
  generalize hLabels : ([] : List L) = labels at run
  cases run with
  | nil => rfl
  | snoc prior last => simp at hLabels

/-- A nonempty run ends with a step. -/
theorem last_step {label : L} (run : Runs step start (labels ++ [label]) finish) :
    ∃ middle, Runs step start labels middle ∧ step middle label finish := by
  generalize hLabels : labels ++ [label] = all at run
  cases run with
  | nil => simp at hLabels
  | @snoc prefixLabels middle other finish prior last =>
      obtain ⟨rfl, hLabel⟩ := List.append_inj' hLabels rfl
      obtain rfl := (List.cons.inj hLabel).1
      exact ⟨middle, prior, last⟩

/-- A nonempty run begins with a step. -/
theorem first_step {label : L} (run : Runs step start (label :: labels) finish) :
    ∃ middle, step start label middle ∧ Runs step middle labels finish := by
  have hRun : Runs step start ([label] ++ labels) finish := run
  obtain ⟨middle, left, right⟩ := split hRun
  have hLeft : Runs step start ([] ++ [label]) middle := left
  obtain ⟨before, hBefore, first⟩ := last_step hLeft
  obtain rfl := eq_of_nil hBefore
  exact ⟨middle, first, right⟩

/-- The labels of a run determine its end if each step's label does. -/
theorem unique {other : S} (hStep : ∀ s label s' s'', step s label s' → step s label s'' → s' = s'')
    (run : Runs step start labels finish) (run' : Runs step start labels other) :
    finish = other := by
  induction run generalizing other with
  | nil => exact run'.eq_of_nil.symm
  | snoc prior last ih =>
      obtain ⟨middle, prior', last'⟩ := run'.last_step
      obtain rfl := ih prior'
      exact hStep _ _ _ _ last last'

/-- A relation between the labels so far and the state that the start satisfies
and every step extends. -/
theorem history (Inv : List L → S → Prop) (run : Runs step start labels finish)
    (hStart : Inv [] start)
    (hStep : ∀ labels middle label finish, Inv labels middle → step middle label finish →
      Inv (labels ++ [label]) finish) : Inv labels finish := by
  induction run with
  | nil => exact hStart
  | snoc prior last ih => exact hStep _ _ _ _ ih last

/-- A property of states that every step whose label is allowed keeps. -/
theorem invariant {Allowed : L → Prop} (Inv : S → Prop) (run : Runs step start labels finish)
    (hAllowed : ∀ label ∈ labels, Allowed label) (hStart : Inv start)
    (hStep : ∀ middle label finish, Allowed label → Inv middle → step middle label finish →
      Inv finish) : Inv finish := by
  induction run with
  | nil => exact hStart
  | @snoc labels middle label finish prior last ih =>
      have hPrior := ih fun label h => hAllowed label (List.mem_append_left _ h)
      exact hStep _ label _ (hAllowed label (by simp)) hPrior last

/-- A simulation: what a step does to the first of two related states, a step of
the second system does to the other. Labels without an image leave it alone. -/
theorem simulate {T M : Type} {spec : T → M → T → Prop} {start' : T} (R : S → T → Prop)
    (image : L → Option M) (run : Runs step start labels finish) (hStart : R start start')
    (hSilent : ∀ s t label s', image label = none → R s t → step s label s' → R s' t)
    (hVisible : ∀ s t label m s', image label = some m → R s t → step s label s' →
      ∃ t', spec t m t' ∧ R s' t') :
    ∃ finish', Runs spec start' (labels.filterMap image) finish' ∧ R finish finish' := by
  refine run.history (fun labels finish => ∃ finish',
    Runs spec start' (labels.filterMap image) finish' ∧ R finish finish') ⟨start', nil, hStart⟩ ?_
  rintro labels middle label finish ⟨middle', prior, hMiddle⟩ hStep
  rw [List.filterMap_append]
  cases hImage : image label with
  | none =>
      refine ⟨middle', ?_, hSilent middle middle' label finish hImage hMiddle hStep⟩
      simpa [hImage] using prior
  | some m =>
      obtain ⟨finish', hSpec, hFinish⟩ :=
        hVisible middle middle' label m finish hImage hMiddle hStep
      refine ⟨finish', ?_, hFinish⟩
      simpa [hImage] using prior.snoc hSpec

end Runs
end
