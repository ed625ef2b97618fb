import Checkup.Proofs.Planning
import Checkup.Proofs.Windows
import Checkup.Run
import Mathlib.Algebra.Ring.Nat

/-!
# What a run of plans leaves

The results of a run are gathered plan by plan. Since they come in plan order, whatever
ends first, the evaluation depends on the plans and the executor alone:

* `Run.evaluationOf` — the evaluation of plans, without a window.
* `Run.gather_eq` — what all tasks leave is gathered to it; what is left of numbered plans is
  told apart by their numbers (`filter_flatMap_of_mem`).
* `Run.run_eq` — running calls the executor for every task, in plan order.
* `Run.every_run_agrees` — every way through the window keeps to its width and to the
  order, comes to an end, and leaves that evaluation.
-/

namespace Checkup

namespace Run

/-- The results of one plan. -/
def resultsOf (execute : Task → CommandEvaluation) (p : SourcePlan) (index : Nat) : Results :=
  p.plan.entries.map fun entry => execute ⟨index, p.source, entry⟩

/-- The evaluation of plans whose commands result in what `execute` says. -/
def evaluationOf (execute : Task → CommandEvaluation) (plans : List SourcePlan) : Evaluation :=
  OrderedMap.ofList <| plans.zipIdx.map fun (p, index) => (p.source, resultsOf execute p index)

/-! ## Gathering -/

/-- Of what numbered elements come to, and that shows their numbers, the part of one number. -/
theorem filter_flatMap_zipIdx {α β : Type} (number : β → Nat) {part : α × Nat → List β}
    (hpart : ∀ x, ∀ y ∈ part x, number y = x.2) (l : List α) (index : Nat) :
    ∀ first : Nat, ((l.zipIdx first).flatMap part).filter (fun y => number y = index) =
      if index < first then [] else (l[index - first]?.map fun x => part (x, index)).getD [] := by
  induction l with
  | nil => simp
  | cons x rest ih =>
    intro first
    have hhead : (part (x, first)).filter (fun y => number y = index) =
        if first = index then part (x, index) else [] := by
      split
      · subst_vars
        exact List.filter_eq_self.mpr fun y hy => by simp [hpart _ y hy]
      · rename_i hne
        exact List.filter_eq_nil_iff.mpr fun y hy => by simp [hpart _ y hy, hne]
    rw [List.zipIdx_cons, List.flatMap_cons, List.filter_append, ih, hhead]
    -- the element is one of an earlier number, this one, or one of the rest
    rcases Nat.lt_trichotomy index first with hlt | rfl | hgt
    · rw [if_neg (by omega), if_pos (by omega), if_pos hlt]
      rfl
    · rw [if_pos rfl, if_pos (by omega), if_neg (by omega)]
      simp
    · rw [if_neg (by omega), if_neg (by omega), if_neg (by omega)]
      obtain ⟨k, rfl⟩ : ∃ k, index = first + 1 + k := ⟨index - (first + 1), by omega⟩
      have hk : first + 1 + k - first = k + 1 := by omega
      rw [hk, Nat.add_sub_cancel_left, List.getElem?_cons_succ, List.nil_append]

/-- The part of one number, if there is an element of that number. -/
theorem filter_flatMap_of_mem {α β : Type} (number : β → Nat) {part : α × Nat → List β}
    (hpart : ∀ x, ∀ y ∈ part x, number y = x.2) {l : List α} {x : α × Nat} (hx : x ∈ l.zipIdx) :
    (l.zipIdx.flatMap part).filter (fun y => number y = x.2) = part x := by
  have helement : l[x.2]? = some x.1 := List.mem_zipIdx_iff_getElem?.mp hx
  rw [filter_flatMap_zipIdx number hpart l x.2 0, if_neg (Nat.not_lt_zero _), Nat.sub_zero,
    helement]
  rfl

/-- Gathering the results of all tasks gives every plan its own. -/
theorem gather_eq (execute : Task → CommandEvaluation) (plans : List SourcePlan) :
    gather plans ((tasks plans).map fun t => (t, execute t)) = evaluationOf execute plans := by
  rw [gather, evaluationOf]
  refine congrArg OrderedMap.ofList (List.map_congr_left fun e he => ?_)
  obtain ⟨p, index⟩ := e
  have htasks : (tasks plans).filter (fun t => t.plan = index) =
      p.plan.entries.map fun entry => ⟨index, p.source, entry⟩ := by
    rw [tasks]
    exact filter_flatMap_of_mem Task.plan (by simp) he
  have hresults : (((tasks plans).map fun t => (t, execute t)).filter fun r =>
      r.1.plan = index).map Prod.snd =
      ((tasks plans).filter fun t => t.plan = index).map execute := by
    rw [List.filter_map, List.map_map]
    rfl
  dsimp only
  rw [hresults, htasks, resultsOf]
  simp

/-! ## The evaluation -/

variable (execute : Task → CommandEvaluation)

theorem map_zipIdx_fst {α β : Type} (f : α → β) (l : List α) (first : Nat) :
    ((l.zipIdx first).map fun e => f e.1) = l.map f :=
  List.map_map.symm.trans (by rw [List.zipIdx_map_fst])

theorem map_fst_results (plans : List SourcePlan) (first : Nat) :
    ((plans.zipIdx first).map fun (p, index) => (p.source, resultsOf execute p index)).map
      Prod.fst = plans.map (·.source) := by
  rw [List.map_map]
  exact map_zipIdx_fst (·.source) plans first

/-- Sources are in the order of their first occurrences. -/
theorem keys_evaluationOf (plans : List SourcePlan) :
    (evaluationOf execute plans).keys = distinct (plans.map (·.source)) := by
  rw [evaluationOf, OrderedMap.keys_ofList, map_fst_results]

/-- The results of a source are those of the last plan for it. -/
theorem get?_evaluationOf {before after : List SourcePlan} {p : SourcePlan}
    (h : p.source ∉ after.map (·.source)) :
    (evaluationOf execute (before ++ p :: after)).get? p.source =
      some (resultsOf execute p before.length) := by
  rw [evaluationOf, List.zipIdx_append, List.zipIdx_cons, List.map_append, List.map_cons,
    Nat.zero_add]
  refine OrderedMap.get?_ofList_of_last ?_
  rw [map_fst_results]
  exact h

/-- With distinct sources there is a result for every command of every plan. -/
theorem commandCount_evaluationOf {plans : List SourcePlan}
    (h : (plans.map (·.source)).Nodup) :
    (evaluationOf execute plans).commandCount = (plans.map (·.plan.size)).sum := by
  have hentries : (evaluationOf execute plans).entries = _ :=
    OrderedMap.entries_ofList (by rwa [map_fst_results])
  rw [Evaluation.commandCount, Evaluation.allResults, OrderedMap.values, hentries,
    List.length_flatten, List.map_map, List.map_map]
  refine congrArg List.sum ((List.map_congr_left fun e _ => ?_).trans
    (map_zipIdx_fst (·.plan.size) plans 0))
  simp [resultsOf, Plan.size]

/-! ## Every run -/

/-- Plans are run by calling the executor for every task, in plan order. -/
theorem run_eq {m : Type → Type} [Monad m] [LawfulMonad m] (executor : Executor m)
    (jobs : Nat) (schedule : Schedule Task) (plans : List SourcePlan) :
    run executor jobs schedule plans = do
      let results ← (tasks plans).mapM fun t => do return (t, ← executor t.source t.entry)
      return ⟨results.map fun r => (r.1.source, r.2), gather plans results⟩ := by
  rw [run, Window.runAll, Window.run_eq _ (width_pos jobs)]
  simp [Window.entered, Window.ofTasks]

/-- **Every run of plans agrees with every other.** Whatever the number of jobs and whatever
ends first:

* no more commands than asked for, and at least one, are in flight; every task is in one
  place; and what has been observed are the results of the first tasks, in plan order;
* until all tasks have left there is a step, and every step is one less to go; at the end
  what is gathered is the evaluation of the plans;
* a run, whatever its schedule, passes through such windows only, from one to the next, and does
  not end before all tasks have left;
* the sources are those of the plans, in the order of first occurrences, each with the
  results of the last plan for it, in plan order; with distinct sources, as plans are made
  for, there is one for every command;
* the program that runs plans calls the executor once for every task, in plan order. -/
theorem every_run_agrees (plans : List SourcePlan) (jobs : Nat)
    (execute : Task → CommandEvaluation) :
    (∀ w, Window.Reachable (width jobs) execute (tasks plans) w →
      w.inside.length ≤ max jobs 1 ∧
      w.left.map Prod.fst ++ w.inside.map (·.task) ++ w.waiting = tasks plans ∧
      w.left = ((tasks plans).take w.left.length).map (fun t => (t, execute t)) ∧
      (¬ w.IsDone → ∃ w', Window.Step (width jobs) execute w w') ∧
      (∀ w', Window.Step (width jobs) execute w w' → w'.steps < w.steps) ∧
      (w.IsDone → w.left.map Prod.fst = tasks plans ∧
        gather plans w.left = evaluationOf execute plans)) ∧
    (∀ schedule w, Window.Passes (width jobs) execute schedule (tasks plans) w →
      Window.Reachable (width jobs) execute (tasks plans) w ∧
      (w.advance execute (width jobs) schedule = none ↔ w.IsDone) ∧
      ∀ (m : Type → Type) [Monad m] [LawfulMonad m],
        Window.run (fun t => (pure (execute t) : m CommandEvaluation)) (width jobs) schedule w =
          (w.advance execute (width jobs) schedule).elim (pure w.left)
            (Window.run (fun t => pure (execute t)) (width jobs) schedule)) ∧
    (evaluationOf execute plans).keys = distinct (plans.map (·.source)) ∧
    (∀ before p after, plans = before ++ p :: after → p.source ∉ after.map (·.source) →
      (evaluationOf execute plans).get? p.source =
        some (p.plan.entries.map fun entry => execute ⟨before.length, p.source, entry⟩)) ∧
    ((plans.map (·.source)).Nodup →
      (evaluationOf execute plans).commandCount = (plans.map (·.plan.size)).sum) ∧
    (∀ (sources : Sources) planner given contexts filter,
      sources.plans planner given contexts filter = .ok (some plans) →
        (plans.map (·.source)).Nodup) ∧
    ∀ (m : Type → Type) [Monad m] [LawfulMonad m] (executor : Executor m)
      (schedule : Schedule Task),
      run executor jobs schedule plans = do
        let results ← (tasks plans).mapM fun t => do return (t, ← executor t.source t.entry)
        return ⟨results.map fun r => (r.1.source, r.2), gather plans results⟩ := by
  refine ⟨fun w hw => ?_, fun schedule w hw => ⟨?_, ?_, ?_⟩, keys_evaluationOf execute plans, ?_,
    commandCount_evaluationOf execute, ?_, ?_⟩
  · have horder := Window.inOrder_of_reachable hw
    refine ⟨horder.inside_le, horder.account, horder.left_eq, ?_, ?_, ?_⟩
    · exact Window.exists_step (width_pos jobs)
    · exact fun w' hstep => hstep.steps_lt
    · intro hdone
      have hleft := horder.left_of_isDone hdone
      refine ⟨?_, by rw [hleft, gather_eq]⟩
      rw [hleft, List.map_map]
      exact List.map_id _
  · exact hw.reachable (width_pos jobs)
  · exact Window.advance_eq_none_iff (width_pos jobs)
  · exact fun m _ _ => Window.run_advance execute (width jobs) schedule w
  · rintro before p after rfl hlast
    exact get?_evaluationOf execute hlast
  · exact fun sources planner given contexts filter h => Sources.nodup_of_plans h
  · exact fun m _ _ executor schedule => run_eq executor jobs schedule plans

/-- The plans of two sources. -/
def twoPlans : List SourcePlan := [
  ⟨"src", { activeContexts := [], entries := [⟨"black", [], []⟩, ⟨"mypy", ["-q"], []⟩] }⟩,
  ⟨"tests", { activeContexts := [], entries := [⟨"black", [], []⟩] }⟩]

/-- The command that was started last ends first. -/
def newestFirst : Schedule Task := fun unended => unended.length - 1

/-- Commands that end well. -/
def succeeding (t : Task) : CommandEvaluation where
  command := t.entry.command
  args := t.source :: t.entry.args
  success := true

/-- An executor that notes what it is called for. -/
def noting : Executor (StateM (List (String × String))) := fun source entry calls =>
  (succeeding ⟨0, source, entry⟩, calls ++ [(source, entry.command)])

theorem every_run_agrees_newestFirst :
    (∃ w, Window.Passes (width 2) succeeding newestFirst (tasks twoPlans) w ∧
      Window.Reachable (width 2) succeeding (tasks twoPlans) w ∧
      w.inside.map (fun i => (i.task.entry.command, i.ended)) =
        [("black", false), ("mypy", true)] ∧
      w.waiting.map (·.source) = ["tests"] ∧ w.left = [] ∧ w.inside.length ≤ 2) ∧
    (evaluationOf succeeding twoPlans).keys = ["src", "tests"] ∧
    (evaluationOf succeeding twoPlans).commandCount = 3 ∧
    ∃ r, run noting 2 newestFirst twoPlans [] =
        (r, [("src", "black"), ("src", "mypy"), ("tests", "black")]) ∧
      r.evaluation = evaluationOf succeeding twoPlans := by
  obtain ⟨hreachable, hpasses, hkeys, -, hcount, -, hrun⟩ := every_run_agrees twoPlans 2 succeeding
  refine ⟨?_, hkeys.trans (by decide +kernel), (hcount (by decide)).trans (by decide), ?_⟩
  · -- two commands are started, and the second one ends before the first
    have hpassed : Window.Passes (width 2) succeeding newestFirst (tasks twoPlans)
        { waiting := [⟨1, "tests", ⟨"black", [], []⟩⟩]
          inside := [
            ⟨⟨0, "src", ⟨"black", [], []⟩⟩, succeeding ⟨0, "src", ⟨"black", [], []⟩⟩, false⟩,
            ⟨⟨0, "src", ⟨"mypy", ["-q"], []⟩⟩, succeeding ⟨0, "src", ⟨"mypy", ["-q"], []⟩⟩,
              true⟩] } :=
      .tail (.tail (.tail .refl rfl) rfl) rfl
    have hwindow := (hpasses newestFirst _ hpassed).1
    exact ⟨_, hpassed, hwindow, rfl, rfl, rfl, (hreachable _ hwindow).1⟩
  · refine ⟨_, congrFun (hrun (StateM (List (String × String))) noting newestFirst) [], ?_⟩
    decide +kernel

end Run

end Checkup
