import Mathlib.Data.List.Induction

/-!
# Runs of a deterministic step function

A component is a step function `step : σ → ι → ο × σ`: one input moves the state and gives one
output.  This module develops what every run proof over such a component needs, once:

* **`after`** / **`outputs`** / **`trace`** — the state, the outputs and the input/output pairs
  of a finite run, with their `append` laws.
* **`Along`** — every step of a run is taken from a state that meets a side condition.
* **`after_invariant`** / **`trace_invariant`** — the two induction rules: an invariant of the
  state, and an invariant that ties the state to the history that led to it.
* **`outputs_eq_of_simulation`** — two components related by a step-preserved relation give the
  same outputs.
* **`trace_flatMap`** — a step that is a list of steps of another component.
* **`trace_select`** — inputs without an effect that a later output could show can be left out of a
  run: the rest of the trace stays as it is.
-/

namespace StepRun

variable {σ τ ι ο : Type*}

/-! ## Runs

The three views of a run, by recursion over its inputs, each with what an append and one more input
do to it. -/

section Runs

variable (step : σ → ι → ο × σ)

/-- The state a run reaches. -/
def after (s : σ) : List ι → σ
  | [] => s
  | i :: is => after (step s i).2 is

/-- The outputs of a run, in order. -/
def outputs (s : σ) : List ι → List ο
  | [] => []
  | i :: is => (step s i).1 :: outputs (step s i).2 is

/-- The inputs of a run, each with the output it got. -/
def trace (s : σ) : List ι → List (ι × ο)
  | [] => []
  | i :: is => (i, (step s i).1) :: trace (step s i).2 is

@[simp] theorem after_nil (s : σ) : after step s [] = s := rfl

@[simp] theorem after_cons (s : σ) (i : ι) (is : List ι) :
    after step s (i :: is) = after step (step s i).2 is := rfl

@[simp] theorem outputs_nil (s : σ) : outputs step s [] = [] := rfl

@[simp] theorem outputs_cons (s : σ) (i : ι) (is : List ι) :
    outputs step s (i :: is) = (step s i).1 :: outputs step (step s i).2 is := rfl

@[simp] theorem trace_nil (s : σ) : trace step s [] = [] := rfl

@[simp] theorem trace_cons (s : σ) (i : ι) (is : List ι) :
    trace step s (i :: is) = (i, (step s i).1) :: trace step (step s i).2 is := rfl

/-- Runs compose: the second part starts where the first one ended. -/
theorem after_append (s : σ) (as bs : List ι) :
    after step s (as ++ bs) = after step (after step s as) bs := by
  induction as generalizing s with
  | nil => rfl
  | cons a as ih => exact ih _

theorem outputs_append (s : σ) (as bs : List ι) :
    outputs step s (as ++ bs) = outputs step s as ++ outputs step (after step s as) bs := by
  induction as generalizing s with
  | nil => rfl
  | cons a as ih => simp [ih]

theorem trace_append (s : σ) (as bs : List ι) :
    trace step s (as ++ bs) = trace step s as ++ trace step (after step s as) bs := by
  induction as generalizing s with
  | nil => rfl
  | cons a as ih => simp [ih]

/-- The last step of a run, seen from the state before it. -/
theorem after_concat (s : σ) (is : List ι) (i : ι) :
    after step s (is ++ [i]) = (step (after step s is) i).2 := after_append step s is [i]

theorem outputs_concat (s : σ) (is : List ι) (i : ι) :
    outputs step s (is ++ [i]) = outputs step s is ++ [(step (after step s is) i).1] :=
  outputs_append step s is [i]

theorem trace_concat (s : σ) (is : List ι) (i : ι) :
    trace step s (is ++ [i]) = trace step s is ++ [(i, (step (after step s is) i).1)] :=
  trace_append step s is [i]

/-- The inputs of a trace are those of the run. -/
theorem map_fst_trace (s : σ) (is : List ι) : (trace step s is).map Prod.fst = is := by
  induction is generalizing s with
  | nil => rfl
  | cons i is ih => rw [trace_cons, List.map_cons, ih]

end Runs

/-! ## Side conditions along a run

A condition may depend on the state an input meets.  A run that breaks it has a first place where it
does, which is how exact conditions of refinements are proved. -/

section Along

variable (step : σ → ι → ο × σ) (P : σ → ι → Prop)

/-- Every step of the run is taken from a state in which its input meets `P`. -/
def Along (s : σ) : List ι → Prop
  | [] => True
  | i :: is => P s i ∧ Along (step s i).2 is

instance decidableAlong [∀ s i, Decidable (P s i)] :
    ∀ (s : σ) (is : List ι), Decidable (Along step P s is)
  | _, [] => inferInstanceAs (Decidable True)
  | s, i :: is =>
    have := decidableAlong (step s i).2 is
    inferInstanceAs (Decidable (P s i ∧ Along step P (step s i).2 is))

@[simp] theorem along_nil (s : σ) : Along step P s [] := trivial

@[simp] theorem along_cons (s : σ) (i : ι) (is : List ι) :
    Along step P s (i :: is) ↔ P s i ∧ Along step P (step s i).2 is := Iff.rfl

theorem along_append (s : σ) (as bs : List ι) :
    Along step P s (as ++ bs) ↔ Along step P s as ∧ Along step P (after step s as) bs := by
  induction as generalizing s with
  | nil => simp
  | cons a as ih => simp [ih, and_assoc]

/-- A run that breaks the condition has a first step that does. -/
theorem exists_first_violation {s : σ} {is : List ι} (h : ¬ Along step P s is) :
    ∃ pre i post, is = pre ++ i :: post ∧ Along step P s pre ∧ ¬ P (after step s pre) i := by
  induction is generalizing s with
  | nil => exact absurd trivial h
  | cons i is ih =>
    by_cases hi : P s i
    · obtain ⟨pre, j, post, rfl, hpre, hj⟩ := ih fun his => h ⟨hi, his⟩
      exact ⟨i :: pre, j, post, rfl, ⟨hi, hpre⟩, hj⟩
    · exact ⟨[], i, is, rfl, trivial, hi⟩

/-- A condition that holds at every step holds along every run. -/
theorem along_of_forall (h : ∀ s i, P s i) (s : σ) (is : List ι) : Along step P s is := by
  induction is generalizing s with
  | nil => trivial
  | cons i is ih => exact ⟨h s i, ih _⟩

theorem along_and {Q : σ → ι → Prop} {s : σ} {is : List ι} (hP : Along step P s is)
    (hQ : Along step Q s is) : Along step (fun s i => P s i ∧ Q s i) s is := by
  induction is generalizing s with
  | nil => trivial
  | cons i is ih => exact ⟨⟨hP.1, hQ.1⟩, ih hP.2 hQ.2⟩

/-- A condition on the inputs alone holds along a run if it holds of every input. -/
theorem along_of_forall_mem {Q : ι → Prop} {is : List ι} (h : ∀ i ∈ is, Q i) (s : σ) :
    Along step (fun _ i => Q i) s is := by
  induction is generalizing s with
  | nil => trivial
  | cons i is ih =>
    exact ⟨h i List.mem_cons_self, ih (fun j hj => h j (List.mem_cons_of_mem i hj)) _⟩

end Along

/-! ## Induction over a run

The two rules that most proofs about runs are an instance of. -/

section Invariants

variable {step : σ → ι → ο × σ} {P : σ → ι → Prop}

/-- **State invariants.** What holds at the start and is kept by every step that meets the side
condition holds in the state a run along it reaches. -/
theorem after_invariant {Inv : σ → Prop}
    (hstep : ∀ s i, Inv s → P s i → Inv (step s i).2) {s : σ} {is : List ι}
    (h0 : Inv s) (hP : Along step P s is) : Inv (after step s is) := by
  induction is generalizing s with
  | nil => exact h0
  | cons i is ih => exact ih (hstep s i h0 hP.1) hP.2

/-- **History invariants.** The invariant may speak of the trace so far; a step extends the trace
by its own input and output. -/
theorem trace_invariant {Inv : List (ι × ο) → σ → Prop} {s : σ}
    (hstep : ∀ tr t i, Inv tr t → P t i → Inv (tr ++ [(i, (step t i).1)]) (step t i).2)
    (h0 : Inv [] s) :
    ∀ is, Along step P s is → Inv (trace step s is) (after step s is) := by
  intro is
  induction is using List.reverseRecOn with
  | nil => exact fun _ => h0
  | append_singleton is i ih =>
    intro hP
    obtain ⟨his, hi⟩ := (along_append step P s is [i]).mp hP
    rw [trace_concat, after_concat]
    exact hstep _ _ i (ih his) hi.1

end Invariants

/-! ## Simulation

Two components over the same inputs, with a relation between their states that a step under the side
condition keeps. -/

section Simulation

variable {step₁ : σ → ι → ο × σ} {step₂ : τ → ι → ο × τ} {P : σ → ι → Prop}

/-- **Simulation.** If related states give equal outputs and related successors, a run gives the
same outputs from both and ends in related states. -/
theorem outputs_eq_of_simulation {R : σ → τ → Prop}
    (hstep : ∀ s t i, R s t → P s i →
      (step₁ s i).1 = (step₂ t i).1 ∧ R (step₁ s i).2 (step₂ t i).2)
    {s : σ} {t : τ} {is : List ι} (hR : R s t) (hP : Along step₁ P s is) :
    outputs step₁ s is = outputs step₂ t is ∧ R (after step₁ s is) (after step₂ t is) := by
  induction is generalizing s t with
  | nil => exact ⟨rfl, hR⟩
  | cons i is ih =>
    obtain ⟨hout, hR'⟩ := hstep s t i hR hP.1
    obtain ⟨houts, hend⟩ := ih hR' hP.2
    exact ⟨by simp [hout, houts], hend⟩

end Simulation

/-! ## Leaving inputs out

Here the inputs are marked beforehand.  Every one that is left out has to be silent in whatever
state it meets. -/

section Select

/-- The members of a list marked `true`; those beyond the marks are kept. -/
def select {α : Type*} : List Bool → List α → List α
  | true :: keep, a :: l => a :: select keep l
  | false :: keep, _ :: l => select keep l
  | [], l => l
  | _ :: _, [] => []

/-- Every member that `select` leaves out meets `Q`. -/
def DropsOnly {α : Type*} (Q : α → Prop) : List Bool → List α → Prop
  | true :: keep, _ :: l => DropsOnly Q keep l
  | false :: keep, a :: l => Q a ∧ DropsOnly Q keep l
  | [], _ => True
  | _ :: _, [] => True

variable {step : σ → ι → ο × σ} {P : σ → ι → Prop} {Q : ι → Prop}

/-- **Silent inputs.** `R` relates states that no output tells apart.  If the inputs in `Q` leave
the state in `R` with itself, a run without some of them gives the rest of the trace and ends in a
related state. -/
theorem trace_select {R : σ → σ → Prop}
    (hstep : ∀ s t i, R s t → P s i →
      (step s i).1 = (step t i).1 ∧ R (step s i).2 (step t i).2)
    (hsilent : ∀ s t i, R s t → P s i → Q i → R (step s i).2 t)
    {s t : σ} {keep : List Bool} {is : List ι} (hR : R s t) (hP : Along step P s is)
    (hdrop : DropsOnly Q keep is) :
    trace step t (select keep is) = select keep (trace step s is) ∧
      R (after step s is) (after step t (select keep is)) := by
  induction is generalizing s t keep with
  | nil => cases keep with
    | nil => exact ⟨rfl, hR⟩
    | cons b keep => cases b <;> exact ⟨rfl, hR⟩
  | cons i is ih =>
    obtain ⟨hi, his⟩ := hP
    obtain ⟨hout, hR'⟩ := hstep s t i hR hi
    cases keep with
    | nil =>
      obtain ⟨htrace, hend⟩ := ih hR' his (show DropsOnly Q [] is from trivial)
      refine ⟨?_, hend⟩
      show (i, (step t i).1) :: trace step (step t i).2 is = (i, (step s i).1) :: _
      rw [← hout]
      exact congrArg _ htrace
    | cons b keep =>
      cases b with
      | true =>
        obtain ⟨htrace, hend⟩ := ih hR' his hdrop
        refine ⟨?_, hend⟩
        show (i, (step t i).1) :: trace step (step t i).2 (select keep is) = (i, (step s i).1) :: _
        rw [← hout, htrace]
      | false => exact ih (hsilent s t i hR hi hdrop.1) his hdrop.2

end Select

/-! ## Leaving inputs out of a run

Here the states decide which inputs are dropped, and the run without them goes through related
states. -/

section Kept

variable (step : σ → ι → ο × σ) (drop : σ → ι → Bool)

/-- The inputs of a run but those that are dropped in the state they meet. -/
def kept (s : σ) : List ι → List ι
  | [] => []
  | i :: is => if drop s i then kept (step s i).2 is else i :: kept (step s i).2 is

/-- The trace of the run at those inputs. -/
def keptTrace (s : σ) : List ι → List (ι × ο)
  | [] => []
  | i :: is =>
    if drop s i then keptTrace (step s i).2 is
    else (i, (step s i).1) :: keptTrace (step s i).2 is

variable {step drop} {P : σ → ι → Prop}

/-- **Dropped inputs.** If a dropped input leaves related states related, and the others give the
same outputs from related states, then a run without the dropped inputs gives the rest of the trace
and ends in a related state. -/
theorem trace_kept {R : σ → σ → Prop}
    (hdrop : ∀ s t i, R s t → P s i → drop s i = true → R (step s i).2 t)
    (hkeep : ∀ s t i, R s t → P s i → drop s i = false →
      (step s i).1 = (step t i).1 ∧ R (step s i).2 (step t i).2)
    {s t : σ} {is : List ι} (hR : R s t) (hP : Along step P s is) :
    trace step t (kept step drop s is) = keptTrace step drop s is ∧
      R (after step s is) (after step t (kept step drop s is)) := by
  induction is generalizing s t with
  | nil => exact ⟨rfl, hR⟩
  | cons i is ih =>
    unfold kept keptTrace
    cases hi : drop s i with
    | true => exact ih (hdrop s t i hR hP.1 hi) hP.2
    | false =>
      obtain ⟨hout, hR'⟩ := hkeep s t i hR hP.1 hi
      obtain ⟨htrace, hend⟩ := ih hR' hP.2
      refine ⟨?_, hend⟩
      show (i, (step t i).1) :: trace step (step t i).2 _ = (i, (step s i).1) :: _
      rw [← hout]
      exact congrArg _ htrace

end Kept

/-! ## Steps made of steps

A component that hands lists of inputs on to another: its runs are runs over the concatenation. -/

section Batches

variable {κ ο' : Type*} {outer : σ → ι → ο × σ} {inner : τ → κ → ο' × τ} {proj : σ → τ}
  {inputs : ι → List κ} {report : ο → List (κ × ο')}

/-- **Batches.** If a step of the outer component takes the inner one through a list of inputs and
reports what it saw, a run of the outer component is one of the inner component on all these inputs,
one list after the other. -/
theorem trace_flatMap {Inv : σ → Prop}
    (hstep : ∀ s i, Inv s → Inv (outer s i).2 ∧
      report (outer s i).1 = trace inner (proj s) (inputs i) ∧
      proj (outer s i).2 = after inner (proj s) (inputs i))
    {s : σ} (hs : Inv s) (is : List ι) :
    Inv (after outer s is) ∧
      (outputs outer s is).flatMap report = trace inner (proj s) (is.flatMap inputs) ∧
      proj (after outer s is) = after inner (proj s) (is.flatMap inputs) := by
  induction is generalizing s with
  | nil => exact ⟨hs, rfl, rfl⟩
  | cons i is ih =>
    obtain ⟨hinv, hreport, hproj⟩ := hstep s i hs
    obtain ⟨hinv', hreports, hend⟩ := ih hinv
    refine ⟨hinv', ?_, ?_⟩
    · rw [outputs_cons, List.flatMap_cons, List.flatMap_cons, trace_append, hreport, hreports,
        hproj]
    · rw [after_cons, List.flatMap_cons, after_append, hend, hproj]

end Batches

end StepRun
