import GisService.Data.Runs

/-! Programs that call into a world which answers as it likes. A program is the
tree of its calls: the answer to a call selects the branch. The rules below
prove what holds at every call of an endless loop from one pass through its
body, with the calls so far at hand. -/

inductive Program (Call : Type) (Answer : Call → Type) (Result : Type) where
  | done (result : Result)
  | call (question : Call) (next : Answer question → Program Call Answer Result)

/-- A call that was answered, between two states of the world. -/
structure Transition (Call : Type) (Answer : Call → Type) (World : Type) where
  before : World
  question : Call
  answer : Answer question
  after : World

/-- A relation between every label and the labels before it. -/
def Throughout {L : Type} (P : List L → L → Prop) (labels : List L) : Prop :=
  ∀ before label after, labels = before ++ label :: after → P before label

section Throughout
variable {L : Type} {P Q : List L → L → Prop} {labels : List L} {label : L}

theorem throughout_nil : Throughout P [] := by
  intro before label after hEq
  simp at hEq

theorem throughout_snoc : Throughout P (labels ++ [label]) ↔ Throughout P labels ∧ P labels label := by
  constructor
  · intro h
    refine ⟨fun before other after hEq => ?_, h labels label [] rfl⟩
    exact h before other (after ++ [label]) (by rw [hEq]; simp)
  · rintro ⟨hLabels, hLabel⟩ before other after hEq
    rcases List.eq_nil_or_concat after with rfl | ⟨after, last, rfl⟩
    · obtain ⟨rfl, hLast⟩ := List.append_inj' hEq rfl
      obtain rfl := (List.cons.inj hLast).1
      exact hLabel
    · rw [List.concat_eq_append, ← List.cons_append, ← List.append_assoc] at hEq
      obtain ⟨hFront, -⟩ := List.append_inj' hEq rfl
      exact hLabels before other after hFront

end Throughout

namespace Program
variable {Call : Type} {Answer : Call → Type} {World Result State : Type}

def bind : Program Call Answer Result → (Result → Program Call Answer State) →
    Program Call Answer State
  | .done result, next => next result
  | .call question rest, next => .call question fun answer => (rest answer).bind next

variable (allowed : Transition Call Answer World → Prop)

/-- A thread that repeats `body` with the state its last pass has left. The
world allows some answers to a call and no others. -/
inductive Step (body : State → Program Call Answer State) :
    Program Call Answer State × World → Transition Call Answer World →
      Program Call Answer State × World → Prop where
  | call {question : Call} {next : Answer question → Program Call Answer State}
      {before after : World} {answer : Answer question}
      (h : allowed ⟨before, question, answer, after⟩) :
      Step body (.call question next, before) ⟨before, question, answer, after⟩ (next answer, after)
  | again {state : State} {question : Call} {next : Answer question → Program Call Answer State}
      {before after : World} {answer : Answer question} (hBody : body state = .call question next)
      (h : allowed ⟨before, question, answer, after⟩) :
      Step body (.done state, before) ⟨before, question, answer, after⟩ (next answer, after)

variable (Assume Ensure : List (Transition Call Answer World) → Transition Call Answer World → Prop)

/-- As long as the transitions are as assumed, every call of the program has
what is ensured, and its result has the postcondition. -/
def Meets (Post : List (Transition Call Answer World) → Result → World → Prop) :
    Program Call Answer Result → List (Transition Call Answer World) → World → Prop
  | .done result => fun past world => Post past result world
  | .call question next => fun past before =>
      ∀ answer after, allowed ⟨before, question, answer, after⟩ →
        Assume past ⟨before, question, answer, after⟩ →
        Ensure past ⟨before, question, answer, after⟩ ∧
        (next answer).Meets Post (past ++ [⟨before, question, answer, after⟩]) after

variable {allowed Assume Ensure}

/-- What the first program leaves is what the next one starts from. -/
theorem meets_bind {Post : List (Transition Call Answer World) → State → World → Prop}
    (program : Program Call Answer Result) (next : Result → Program Call Answer State)
    (past : List (Transition Call Answer World)) (world : World) :
    (program.bind next).Meets allowed Assume Ensure Post past world ↔
      program.Meets allowed Assume Ensure
        (fun past result world => (next result).Meets allowed Assume Ensure Post past world)
        past world := by
  induction program generalizing past world with
  | done result => rfl
  | call question rest ih =>
      apply forall_congr'
      intro answer
      apply forall_congr'
      intro after
      simp only [ih]

/-- The rule of the conditional. -/
theorem meets_ite {Post : List (Transition Call Answer World) → Result → World → Prop}
    {c : Prop} [Decidable c] {left right : Program Call Answer Result}
    {past : List (Transition Call Answer World)} {world : World}
    (hLeft : c → left.Meets allowed Assume Ensure Post past world)
    (hRight : ¬ c → right.Meets allowed Assume Ensure Post past world) :
    (if c then left else right).Meets allowed Assume Ensure Post past world := by
  by_cases hc : c
  · rw [if_pos hc]
    exact hLeft hc
  · rw [if_neg hc]
    exact hRight hc

/-- The rule of consequence. -/
theorem Meets.mono {Post Post' : List (Transition Call Answer World) → Result → World → Prop}
    {program : Program Call Answer Result} {past : List (Transition Call Answer World)} {world : World}
    (h : program.Meets allowed Assume Ensure Post past world)
    (hPost : ∀ past result world, Post past result world → Post' past result world) :
    program.Meets allowed Assume Ensure Post' past world := by
  induction program generalizing past world with
  | done result => exact hPost past result world h
  | call question rest ih =>
      intro answer after hAllowed hAssume
      obtain ⟨hEnsure, hRest⟩ := h answer after hAllowed hAssume
      exact ⟨hEnsure, ih answer hRest⟩

/-- The rule of the loop: an invariant of the body holds whenever the body is
entered, so that every call of a run has what is ensured. -/
theorem ensure_of_run {body : State → Program Call Answer State}
    {Inv : List (Transition Call Answer World) → State → World → Prop}
    (hBody : ∀ past state world, Inv past state world →
      (body state).Meets allowed Assume Ensure Inv past world)
    {start finish : Program Call Answer State × World}
    (hStart : start.1.Meets allowed Assume Ensure Inv [] start.2)
    {labels : List (Transition Call Answer World)}
    (run : Runs (Step allowed body) start labels finish) (hAssume : Throughout Assume labels) :
    Throughout Ensure labels ∧ finish.1.Meets allowed Assume Ensure Inv labels finish.2 := by
  refine run.history (fun labels finish => Throughout Assume labels → Throughout Ensure labels ∧
    finish.1.Meets allowed Assume Ensure Inv labels finish.2) ?_ ?_ hAssume
  · intro _
    exact ⟨throughout_nil, hStart⟩
  · intro labels middle label finish ih hStep hAssume
    obtain ⟨hBefore, hLabel⟩ := throughout_snoc.mp hAssume
    obtain ⟨hEnsured, hMeets⟩ := ih hBefore
    cases hStep with
    | call hAllowed =>
        obtain ⟨hEnsure, hRest⟩ := hMeets _ _ hAllowed hLabel
        exact ⟨throughout_snoc.mpr ⟨hEnsured, hEnsure⟩, hRest⟩
    | again hNext hAllowed =>
        have hPass := hBody _ _ _ hMeets
        rw [hNext] at hPass
        obtain ⟨hEnsure, hRest⟩ := hPass _ _ hAllowed hLabel
        exact ⟨throughout_snoc.mpr ⟨hEnsured, hEnsure⟩, hRest⟩

end Program
