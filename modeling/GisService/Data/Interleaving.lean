import GisService.Data.Runs
import Mathlib.Logic.Function.Basic

/-! Machines of one kind that move in turn, each with a state of its own, all on
one shared state. A run of the whole is a run of each machine, in the
environment that the others make. -/

section
variable {I G L A : Type} [DecidableEq I]

/-- One machine moves. -/
inductive Interleaved (step : G × L → A → G × L → Prop) :
    G × (I → L) → I × A → G × (I → L) → Prop where
  | move {shared shared' : G} {locals : I → L} {i : I} {a : A} {next : L}
      (h : step (shared, locals i) a (shared', next)) :
      Interleaved step (shared, locals) (i, a) (shared', Function.update locals i next)

/-- The labels of one machine. -/
def labelsOf (i : I) (labels : List (I × A)) : List A :=
  labels.filterMap fun label => if label.1 = i then some label.2 else none

namespace Interleaved

theorem labelsOf_snoc_self (i : I) (labels : List (I × A)) (a : A) :
    labelsOf i (labels ++ [(i, a)]) = labelsOf i labels ++ [a] := by
  simp [labelsOf, List.filterMap_append]

theorem labelsOf_snoc_of_ne {i j : I} (h : j ≠ i) (labels : List (I × A)) (a : A) :
    labelsOf i (labels ++ [(j, a)]) = labelsOf i labels := by
  simp [labelsOf, List.filterMap_append, h]

variable {step : G × L → A → G × L → Prop} {start finish : G × (I → L)} {labels : List (I × A)}

/-- What a machine does is a run of its own. -/
theorem component (run : Runs (Interleaved step) start labels finish) (i : I) :
    Runs (fun own a own' => ∃ shared shared', step (shared, own) a (shared', own')) (start.2 i)
      (labelsOf i labels) (finish.2 i) := by
  refine run.history (fun labels finish => Runs _ (start.2 i) (labelsOf i labels) (finish.2 i))
    .nil ?_
  intro labels middle label finish hRun hStep
  cases hStep with
  | @move shared shared' locals j a next h =>
      by_cases hSame : j = i
      · subst hSame
        dsimp only
        rw [labelsOf_snoc_self, Function.update_self]
        exact hRun.snoc ⟨shared, shared', h⟩
      · dsimp only
        rw [labelsOf_snoc_of_ne hSame, Function.update_of_ne (Ne.symm hSame)]
        exact hRun

end Interleaved
end
