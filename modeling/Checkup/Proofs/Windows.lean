import Checkup.Run.Window
import Mathlib.Logic.Relation

/-!
# Every way through a window

Which task ends next is not in the hands of a program; it may be any of those inside.
Whatever happens:

* `Window.InOrder` — tasks are inside, have left or wait in their order, each once, and
  there is no more room than the width; every step keeps that (`InOrder.step`,
  `inOrder_of_reachable`).
* `Window.exists_step`, `Window.Step.steps_lt` — until all tasks have left there is a step,
  and there are only so many.
* `Window.InOrder.left_eq` — what has left are the first tasks with their results.
* `Window.advance`, `Window.Passes` — the windows that a run passes through (`run_advance`); it
  comes to no others than steps lead to (`advance_step`, `Passes.reachable`).
* `Window.run_eq` — running executes every task once, in order, whatever the schedule.
-/

namespace Checkup.Window

variable {τ ρ : Type} {width : Nat} {execute : τ → ρ} {tasks : List τ} {w w' : Window τ ρ}

/-- What the steps from a window before a run may lead to. -/
def Reachable (width : Nat) (execute : τ → ρ) (tasks : List τ) (w : Window τ ρ) : Prop :=
  Relation.ReflTransGen (Step width execute) (ofTasks tasks) w

/-- **The invariant of a run**: every task is in one place, in order, with its result. -/
structure InOrder (width : Nat) (execute : τ → ρ) (tasks : List τ) (w : Window τ ρ) : Prop where
  /-- those that have left come first, then those inside, then those that wait -/
  account : w.left.map Prod.fst ++ w.inside.map (·.task) ++ w.waiting = tasks
  /-- results are those of the tasks inside -/
  inside_result : ∀ i ∈ w.inside, i.result = execute i.task
  /-- results are those of the tasks that have left -/
  left_result : ∀ r ∈ w.left, r.2 = execute r.1
  /-- no more tasks are inside than there is room for -/
  inside_le : w.inside.length ≤ width

/-! ## One step -/

theorem inOrder_ofTasks : InOrder width execute tasks (ofTasks tasks) where
  account := rfl
  inside_result := nofun
  left_result := nofun
  inside_le := Nat.zero_le width

/-- Every step keeps the order. -/
theorem InOrder.step (h : InOrder width execute tasks w) (hstep : Step width execute w w') :
    InOrder width execute tasks w' := by
  cases hstep with
  | @enter task waiting inside left hroom =>
    refine ⟨by simpa using h.account, fun i hi => ?_, h.left_result, ?_⟩
    · rcases List.mem_append.mp hi with hi | hi
      · exact h.inside_result i hi
      · rw [List.mem_singleton.mp hi]
    · rw [List.length_append]
      exact hroom
  | @finish task result waiting before after left =>
    have hresult : result = execute task :=
      h.inside_result ⟨task, result, false⟩ (List.mem_append_right _ List.mem_cons_self)
    refine ⟨by simpa using h.account, fun i hi => ?_, h.left_result, by simpa using h.inside_le⟩
    -- the task that has ended is the only one that is not as before
    rcases List.mem_append.mp hi with hi | hi
    · exact h.inside_result i (List.mem_append_left _ hi)
    · rcases List.mem_cons.mp hi with rfl | hi
      · exact hresult
      · exact h.inside_result i (List.mem_append_right _ (List.mem_cons_of_mem _ hi))
  | @leave task result waiting inside left =>
    refine ⟨by simpa using h.account, fun i hi => ?_, fun r hr => ?_, ?_⟩
    · exact h.inside_result i (List.mem_cons_of_mem _ hi)
    · rcases List.mem_append.mp hr with hr | hr
      · exact h.left_result r hr
      · rw [List.mem_singleton.mp hr]
        exact h.inside_result _ List.mem_cons_self
    · exact Nat.le_of_succ_le h.inside_le

/-- A step is one of the steps that a window has before it. -/
theorem Step.steps_lt (h : Step width execute w w') : w'.steps < w.steps := by
  cases h with
  | enter _ =>
    simp only [steps, List.length_cons, insideSteps_append, insideSteps]
    simp
    omega
  | finish =>
    simp only [steps, insideSteps_append, insideSteps]
    simp
  | leave =>
    simp only [steps, insideSteps]
    simp

/-- Until all tasks have left there is a step: the oldest task inside leaves or ends, or the
next one enters. -/
theorem exists_step (hwidth : 0 < width) (hdone : ¬ w.IsDone) :
    ∃ w', Step width execute w w' := by
  obtain ⟨waiting, inside, left⟩ := w
  rcases inside with - | ⟨⟨task, result, ended⟩, inside⟩
  · rcases waiting with - | ⟨task, waiting⟩
    · exact absurd ⟨rfl, rfl⟩ hdone
    · exact ⟨_, .enter (by simpa using hwidth)⟩
  · rcases ended with - | -
    · rw [← List.nil_append (_ :: inside)]
      exact ⟨_, .finish⟩
    · exact ⟨_, .leave⟩

/-! ## Whole runs -/

/-- Every window that a run comes to is in order. -/
theorem inOrder_of_reachable (h : Reachable width execute tasks w) :
    InOrder width execute tasks w := by
  induction h with
  | refl => exact inOrder_ofTasks
  | tail _ hstep ih => exact ih.step hstep

/-- What has left are the first tasks, in order, with their results. -/
theorem InOrder.left_eq (h : InOrder width execute tasks w) :
    w.left = (tasks.take w.left.length).map fun t => (t, execute t) := by
  have htake : tasks.take w.left.length = w.left.map Prod.fst := by
    rw [← h.account, List.append_assoc, List.take_append_of_le_length (by simp)]
    exact List.take_of_length_le (by simp)
  rw [htake, List.map_map]
  refine (List.map_id w.left).symm.trans (List.map_congr_left fun r hr => ?_)
  rw [Function.comp_apply, ← h.left_result r hr]
  rfl

/-- At the end all tasks have left. -/
theorem InOrder.left_of_isDone (h : InOrder width execute tasks w) (hdone : w.IsDone) :
    w.left = tasks.map fun t => (t, execute t) := by
  have hall : w.left.map Prod.fst = tasks := by
    rw [← h.account, hdone.1, hdone.2]
    simp
  have hlength : w.left.length = tasks.length := by rw [← hall, List.length_map]
  rw [h.left_eq, hlength, List.take_length]

/-! ## Running -/

/-- The tasks that have left or are inside, with their results. -/
def entered (w : Window τ ρ) : List (τ × ρ) := w.left ++ w.inside.map fun i => (i.task, i.result)

/-- Ending a task changes that one and no other. -/
theorem exists_endNth {n : Nat} {inside : List (Inside τ ρ)} (h : n < (unended inside).length) :
    ∃ before task result after, inside = before ++ ⟨task, result, false⟩ :: after ∧
      endNth n inside = before ++ ⟨task, result, true⟩ :: after := by
  -- tasks that have ended are passed over without counting
  induction inside generalizing n with
  | nil => simp [unended] at h
  | cons i rest ih =>
    obtain ⟨task, result, ended⟩ := i
    rcases ended with - | -
    · cases n with
      | zero => exact ⟨[], task, result, rest, rfl, rfl⟩
      | succ n =>
        obtain ⟨before, t, r, after, hrest, hend⟩ := ih (by simpa [unended] using h)
        refine ⟨⟨task, result, false⟩ :: before, t, r, after, by rw [hrest]; rfl, ?_⟩
        simp [endNth, hend]
    · obtain ⟨before, t, r, after, hrest, hend⟩ := ih (by simpa [unended] using h)
      refine ⟨⟨task, result, true⟩ :: before, t, r, after, by rw [hrest]; rfl, ?_⟩
      simp [endNth, hend]

/-- What is asked of what happens next: it is a step, of no other task than those that have
entered unless there is room, and there is none only if all tasks have left. -/
def Next.IsStep (width : Nat) : w.Next → Prop
  | .done => w.IsDone
  | .enter .. => w.inside.length < width
  | .move w' _ =>
    w'.waiting = w.waiting ∧ w'.entered = w.entered ∧ ∀ execute, Step width execute w w'

theorem finishOne_isStep (schedule : Schedule τ) {waiting : List τ} {inside : List (Inside τ ρ)}
    {left : List (τ × ρ)} (hhead : ∀ i ∈ inside.head?, i.ended = false)
    (hdone : inside = [] → waiting = []) :
    (next.finishOne schedule waiting inside left).IsStep width := by
  rw [next.finishOne]
  split
  · rename_i hsome
    obtain ⟨before, task, result, after, hinside, hend⟩ :=
      exists_endNth (Nat.mod_lt (schedule (unended inside)) hsome)
    subst hinside
    refine ⟨rfl, ?_, fun execute => ?_⟩
    · simp [entered, hend]
    · rw [hend]
      exact .finish
  · rename_i hnone
    have hinside : inside = [] := by
      rcases inside with - | ⟨i, rest⟩
      · rfl
      · simp [unended, hhead i rfl] at hnone
    exact ⟨hdone hinside, hinside⟩

/-- What happens next is a step. -/
theorem next_isStep (hwidth : 0 < width) (schedule : Schedule τ) (w : Window τ ρ) :
    (w.next width schedule).IsStep width := by
  obtain ⟨waiting, inside, left⟩ := w
  -- the oldest task inside leaves if it has ended; else the next one enters, or one ends
  rcases inside with - | ⟨⟨task, result, ended⟩, inside⟩
  · rcases waiting with - | ⟨first, waiting⟩
    · exact finishOne_isStep schedule nofun fun _ => rfl
    · rw [next]
      · rw [if_pos (by simpa using hwidth)]
        exact hwidth
      · nofun
  · rcases ended with - | -
    · rcases waiting with - | ⟨first, waiting⟩
      · exact finishOne_isStep schedule (by simp) nofun
      · rw [next]
        · split
          · assumption
          · exact finishOne_isStep schedule (by simp) nofun
        · nofun
    · exact ⟨rfl, by simp [entered], fun _ => .leave⟩

/-! ## The windows of a run -/

/-- The next window of a run, if tasks result in what `execute` says; there is none after the
last one. -/
def advance (execute : τ → ρ) (width : Nat) (schedule : Schedule τ) (w : Window τ ρ) :
    Option (Window τ ρ) :=
  match w.next width schedule with
  | .done => none
  | .enter task waiting _ =>
    some { w with waiting, inside := w.inside ++ [⟨task, execute task, false⟩] }
  | .move w' _ => some w'

/-- The windows that a run of tasks passes through. -/
def Passes (width : Nat) (execute : τ → ρ) (schedule : Schedule τ) (tasks : List τ)
    (w : Window τ ρ) : Prop :=
  Relation.ReflTransGen (fun v v' => v.advance execute width schedule = some v') (ofTasks tasks) w

/-- **A run advances** until there is no next window. -/
theorem run_advance {m : Type → Type} [Monad m] [LawfulMonad m] (execute : τ → ρ) (width : Nat)
    (schedule : Schedule τ) (w : Window τ ρ) :
    run (fun t => (pure (execute t) : m ρ)) width schedule w =
      (w.advance execute width schedule).elim (pure w.left)
        (run (fun t => pure (execute t)) width schedule) := by
  rw [run, advance]
  cases w.next width schedule with
  | done => rfl
  | enter task waiting hwaiting => exact pure_bind ..
  | move w' hlt => rfl

/-- Advancing is a step. -/
theorem advance_step (hwidth : 0 < width) {schedule : Schedule τ}
    (h : w.advance execute width schedule = some w') : Step width execute w w' := by
  have hnext := next_isStep hwidth schedule w
  rw [advance] at h
  cases hw : w.next width schedule with
  | done => simp [hw] at h
  | enter task waiting hwaiting =>
    rw [hw] at hnext h
    obtain rfl := Option.some.inj h
    have hroom : w.inside.length < width := hnext
    clear h hnext hw
    obtain ⟨all, inside, left⟩ := w
    obtain rfl : all = task :: waiting := hwaiting
    exact .enter hroom
  | move v hlt =>
    rw [hw] at hnext h
    obtain rfl := Option.some.inj h
    exact hnext.2.2 execute

/-- A run only ends when all tasks have left. -/
theorem advance_eq_none_iff (hwidth : 0 < width) {schedule : Schedule τ} :
    w.advance execute width schedule = none ↔ w.IsDone := by
  have hnext := next_isStep hwidth schedule w
  constructor
  · intro h
    rw [advance] at h
    cases hw : w.next width schedule with
    | done => rwa [hw] at hnext
    | enter => simp [hw] at h
    | move => simp [hw] at h
  · rintro ⟨hwaiting, hinside⟩
    obtain ⟨waiting, inside, left⟩ := w
    subst hwaiting hinside
    rfl

/-- **A run keeps to the steps**: whatever the schedule, it passes through no other windows than
steps lead to. -/
theorem Passes.reachable (hwidth : 0 < width) {schedule : Schedule τ}
    (h : Passes width execute schedule tasks w) : Reachable width execute tasks w := by
  induction h with
  | refl => exact .refl
  | tail _ hadvance ih => exact ih.tail (advance_step hwidth hadvance)

/-! ## What a run executes -/

theorem steps_enter_lt {task : τ} {waiting : List τ} (h : w.waiting = task :: waiting)
    (result : ρ) :
    (⟨waiting, w.inside ++ [⟨task, result, false⟩], w.left⟩ : Window τ ρ).steps < w.steps := by
  simp only [steps, h, List.length_cons, insideSteps_append, insideSteps]
  simp
  omega

/-- **Running executes every task once, in order**, whatever the schedule and the width; and
the results come in the order of the tasks. -/
theorem run_eq {m : Type → Type} [Monad m] [LawfulMonad m] (execute : τ → m ρ)
    (hwidth : 0 < width) (schedule : Schedule τ) (w : Window τ ρ) :
    run execute width schedule w = do
      let results ← w.waiting.mapM fun t => do return (t, ← execute t)
      return w.entered ++ results := by
  -- by the number of steps that are left; a task is executed when it enters
  induction hsteps : w.steps using Nat.strongRecOn generalizing w with
  | ind n ih =>
    subst hsteps
    have hnext := next_isStep hwidth schedule w
    rw [run]
    cases hw : w.next width schedule with
    | done =>
      rw [hw] at hnext
      simp [hnext.1, hnext.2, entered]
    | enter task waiting hwaiting =>
      have hrest := fun result => ih _ (steps_enter_lt hwaiting result) _ rfl
      simp only [hrest, hwaiting, List.mapM_cons]
      simp [entered]
    | move w' hlt =>
      rw [hw] at hnext
      dsimp only
      rw [ih _ hlt w' rfl, hnext.1, hnext.2.1]

end Checkup.Window
