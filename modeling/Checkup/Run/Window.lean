/-!
# Bounded windows

Tasks pass through a window of bounded width: they enter in order, end in any
order, and leave in order.

* `Window` — who waits, who is inside and who has left.
* `Window.Step` — what may happen next: the next task enters while there is
  room, a task inside ends, or the oldest one leaves once it has ended.
* `Window.next` — one of the possible steps; a `Schedule` tells which task ends.
* `Window.runAll` — steps until all tasks have left.
-/

namespace Checkup

universe u

variable {τ ρ : Type}

/-- A task inside a window. -/
structure Window.Inside (τ ρ : Type) where
  /-- the task -/
  task : τ
  /-- what it results in -/
  result : ρ
  /-- whether it has ended -/
  ended : Bool := false
  deriving DecidableEq, Repr

/-- The state of a run. -/
structure Window (τ ρ : Type) where
  /-- the tasks to come, in order -/
  waiting : List τ
  /-- the tasks inside, oldest first -/
  inside : List (Window.Inside τ ρ) := []
  /-- the tasks that have left, oldest first, with their results -/
  left : List (τ × ρ) := []
  deriving DecidableEq, Repr

/-- Which of the tasks that have not ended ends next, by its number. -/
abbrev Schedule (τ : Type) := List τ → Nat

namespace Window

/-- The window before a run. -/
def ofTasks (tasks : List τ) : Window τ ρ := { waiting := tasks }

/-- Whether all tasks have left. -/
def IsDone (w : Window τ ρ) : Prop := w.waiting = [] ∧ w.inside = []

/-- What may happen to a window of a width; a task results in what `execute` says. -/
inductive Step (width : Nat) (execute : τ → ρ) : Window τ ρ → Window τ ρ → Prop
  /-- the next task enters -/
  | enter {task : τ} {waiting : List τ} {inside : List (Inside τ ρ)} {left : List (τ × ρ)} :
      inside.length < width →
      Step width execute ⟨task :: waiting, inside, left⟩
        ⟨waiting, inside ++ [⟨task, execute task, false⟩], left⟩
  /-- a task inside ends -/
  | finish {task : τ} {result : ρ} {waiting : List τ} {before after : List (Inside τ ρ)}
      {left : List (τ × ρ)} :
      Step width execute ⟨waiting, before ++ ⟨task, result, false⟩ :: after, left⟩
        ⟨waiting, before ++ ⟨task, result, true⟩ :: after, left⟩
  /-- the oldest task leaves -/
  | leave {task : τ} {result : ρ} {waiting : List τ} {inside : List (Inside τ ρ)}
      {left : List (τ × ρ)} :
      Step width execute ⟨waiting, ⟨task, result, true⟩ :: inside, left⟩
        ⟨waiting, inside, left ++ [(task, result)]⟩

/-! ## Running -/

/-- The tasks inside that have not ended. -/
def unended (inside : List (Inside τ ρ)) : List τ :=
  (inside.filter fun i => !i.ended).map (·.task)

/-- Ends the task with a number among those that have not ended. -/
def endNth : Nat → List (Inside τ ρ) → List (Inside τ ρ)
  | _, [] => []
  | n, i :: rest =>
    if i.ended then i :: endNth n rest
    else
      match n with
      | 0 => { i with ended := true } :: rest
      | n + 1 => i :: endNth n rest

/-- How many steps the tasks inside have before them. -/
def insideSteps : List (Inside τ ρ) → Nat
  | [] => 0
  | i :: rest => (if i.ended then 1 else 2) + insideSteps rest

/-- How many steps a window has before it. -/
def steps (w : Window τ ρ) : Nat := 3 * w.waiting.length + insideSteps w.inside

theorem insideSteps_append (l l' : List (Inside τ ρ)) :
    insideSteps (l ++ l') = insideSteps l + insideSteps l' := by
  induction l with
  | nil => simp [insideSteps]
  | cons i rest ih => simp only [List.cons_append, insideSteps, ih]; omega

theorem insideSteps_endNth {n : Nat} {l : List (Inside τ ρ)} (h : n < (unended l).length) :
    insideSteps (endNth n l) + 1 = insideSteps l := by
  induction l generalizing n with
  | nil => simp [unended] at h
  | cons i rest ih =>
    cases hi : i.ended with
    | true =>
      have := ih (n := n) (by simpa [unended, hi] using h)
      simp only [endNth, hi, insideSteps, if_true]
      omega
    | false =>
      cases n with
      | zero => simp [endNth, hi, insideSteps]; omega
      | succ n =>
        have := ih (n := n) (by simpa [unended, hi] using h)
        simp only [endNth, hi, insideSteps, Bool.false_eq_true, if_false]
        omega

/-- What happens next: the oldest task leaves if it has ended, else the next one
enters if there is room, else the one that `schedule` tells ends. -/
inductive Next (w : Window τ ρ) where
  /-- all tasks have left -/
  | done
  /-- a task enters -/
  | enter (task : τ) (waiting : List τ) (h : w.waiting = task :: waiting)
  /-- a task ends or leaves -/
  | move (w' : Window τ ρ) (h : w'.steps < w.steps)

/-- What happens next in a window of a width. -/
def next (width : Nat) (schedule : Schedule τ) (w : Window τ ρ) : w.Next :=
  match w with
  | ⟨waiting, ⟨task, result, true⟩ :: rest, left⟩ =>
    .move ⟨waiting, rest, left ++ [(task, result)]⟩ (by simp [steps, insideSteps])
  | ⟨task :: waiting, inside, left⟩ =>
    if inside.length < width then .enter task waiting rfl
    else finishOne (task :: waiting) inside left
  | ⟨[], inside, left⟩ => finishOne [] inside left
where
  /-- The task that `schedule` tells ends, if there is one inside that has not. -/
  finishOne (waiting : List τ) (inside : List (Inside τ ρ)) (left : List (τ × ρ)) :
      Next ⟨waiting, inside, left⟩ :=
    if h : 0 < (unended inside).length then
      .move ⟨waiting, endNth (schedule (unended inside) % (unended inside).length) inside, left⟩ (by
        have := insideSteps_endNth (l := inside) (Nat.mod_lt (schedule (unended inside)) h)
        simp only [steps]
        omega)
    else .done

/-- Runs until no step is left; the results, in the order of the tasks. A task is
executed when it enters. -/
def run {m : Type → Type} [Monad m] (execute : τ → m ρ) (width : Nat) (schedule : Schedule τ)
    (w : Window τ ρ) : m (List (τ × ρ)) :=
  match w.next width schedule with
  | .done => pure w.left
  | .enter task waiting _ => do
    let result ← execute task
    run execute width schedule { w with waiting, inside := w.inside ++ [⟨task, result, false⟩] }
  | .move w' _ => run execute width schedule w'
termination_by w.steps
decreasing_by
  · rename_i h
    simp only [steps, h, List.length_cons, insideSteps_append, insideSteps]
    simp
    omega
  · assumption

/-- Runs tasks through a window of a width. -/
def runAll {m : Type → Type} [Monad m] (execute : τ → m ρ) {width : Nat} (_ : 0 < width)
    (schedule : Schedule τ) (tasks : List τ) : m (List (τ × ρ)) :=
  run execute width schedule (ofTasks tasks)

end Window

end Checkup
