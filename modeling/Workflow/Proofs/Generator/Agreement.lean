import Workflow.Proofs.Generator.Reading

namespace Workflow.Generator

/-- The target that a choice comes to, where `holds` answers for conditions. -/
def pick (holds : String → Bool) : Successor → Option String
  | .fixed target => target
  | .branch condition onTrue onFalse =>
    if Execution.testHolds holds condition then onTrue else onFalse

namespace Execution

def within (successor : Option String) (output : List Yielded) : Execution :=
  ⟨.body, some successor, output⟩

/-- A line that says a command moves the execution by it. -/
theorem run_cons_of_command {l : Language} {line : String} {c : Command}
    (h : Says l line c) (n : Nat) (holds : String → Bool) (rest : List (List Char)) {s : Execution}
    (hs : s.mode ≠ .returned) :
    s.run l holds ((indented n line).toList :: rest) =
      (s.commandStep l holds (4 * n) c).bind (run l holds rest) := by
  rw [run, List.foldlM_cons, h.step_indented n holds hs]
  rfl

end Execution

open Execution

section run

variable {l : Language} {d : Dialect} (h : Reads l d) (holds : String → Bool)
  (rest : List (List Char)) (x : Option String) (output : List Yielded)

include h

theorem run_comment (text : String) :
    run l holds ((commentLine d text).toList :: rest) (within x output) =
      run l holds rest (within x output) := by
  rw [commentLine, run_cons_of_command (h.comment text) 1 holds rest (by simp [within])]
  rfl

theorem run_assign (target : Option String) :
    run l holds ((assignLine d 1 target).toList :: rest) (within x output) =
      run l holds rest (within target output) := by
  rw [assignLine, run_cons_of_command (h.assign target) 1 holds rest (by simp [within])]
  simp [commandStep, bodyStep, within, Execution.assign]

theorem run_emit (step : String) :
    run l holds ((indented 1 (d.yieldPair (quote step) nextVariable)).toList :: rest)
      (within x output) = run l holds rest (within x (output ++ [⟨step, x⟩])) := by
  rw [run_cons_of_command (h.emit step) 1 holds rest (by simp [within])]
  simp [commandStep, bodyStep, within]

theorem run_actorLines (t : Transition) :
    run l holds ((actorLines d t).map String.toList ++ rest) (within x output) =
      run l holds rest (within x output) := by
  unfold actorLines
  split
  · exact run_comment h holds rest x output _
  · rfl

/-- The end of the second arm: where braces close blocks, one stands here. -/
theorem run_ifClose :
    run l holds ((d.ifClose.map (indented 1)).toList.map String.toList ++ rest)
      ⟨if l.indented then .body else .ifEnd, some x, output⟩ =
      run l holds rest (within x output) := by
  have hc := h.ifClose
  split at hc
  · rename_i hi
    rw [hc, if_pos hi]
    rfl
  · rename_i hi
    obtain ⟨line, hline, hcommand⟩ := hc
    rw [hline, if_neg hi]
    exact run_cons_of_command hcommand 1 holds rest (by simp)

/-- Of the two arms the one that the test selects sets the variable. -/
theorem run_branch (condition onTrue onFalse : Option String) :
    run l holds ([indented 1 (d.ifOpen (test d condition)), assignLine d 2 onTrue,
        indented 1 d.elseOpen, assignLine d 2 onFalse].map String.toList ++
        ((d.ifClose.map (indented 1)).toList.map String.toList ++ rest)) (within x output) =
      run l holds rest (within (pick holds (.branch condition onTrue onFalse)) output) := by
  -- The place says which arm is open and what the test was, so there is one fact for each line.
  have hopen : commandStep l holds (4 * 1) (.ifOpen condition) (within x output) =
      some ⟨.thenArm (testHolds holds condition), some x, output⟩ := by
    simp [commandStep, bodyStep, within, goTo]
  have hthen (b : Bool) : commandStep l holds (4 * 2) (.assign onTrue)
      ⟨.thenArm b, some x, output⟩ =
      some ⟨.elseHead b, some (if b then onTrue else x), output⟩ := by
    cases b <;> simp [commandStep, Execution.assign, goTo]
  have helse (b : Bool) (y : Option String) : commandStep l holds (4 * 1) .elseOpen
      ⟨.elseHead b, some y, output⟩ = some ⟨.elseArm b, some y, output⟩ := by
    simp [commandStep, goTo]
  have hlast (b : Bool) (y : Option String) : commandStep l holds (4 * 2) (.assign onFalse)
      ⟨.elseArm b, some y, output⟩ =
      some ⟨if l.indented then .body else .ifEnd, some (if b then y else onFalse), output⟩ := by
    cases b <;> simp [commandStep, Execution.assign, goTo]
  simp only [List.map_cons, List.map_nil, List.cons_append, List.nil_append, assignLine]
  rw [run_cons_of_command (h.ifOpen condition) 1 holds _ (by simp [within]), hopen,
    Option.bind_some,
    run_cons_of_command (h.assign onTrue) 2 holds _ (by simp), hthen, Option.bind_some,
    run_cons_of_command h.elseOpen 1 holds _ (by simp), helse, Option.bind_some,
    run_cons_of_command (h.assign onFalse) 2 holds _ (by simp), hlast, Option.bind_some,
    run_ifClose h holds rest]
  cases hb : testHolds holds condition <;> simp [pick, hb]

/-- The lines of one step yield one pair: the step, and the target that its choice comes to. -/
theorem run_stepLines (t : Transition) :
    run l holds ((stepLines d t).map String.toList ++ rest) (within x output) =
      run l holds rest
        (within (pick holds t.successor) (output ++ [⟨t.step, pick holds t.successor⟩])) := by
  simp only [stepLines, List.map_cons, List.map_append, List.map_nil, List.cons_append,
    List.append_assoc, List.nil_append]
  rw [run_comment h]
  cases hs : t.successor with
  | fixed target =>
    simp only [choiceLines, hs, List.map_append, List.map_cons, List.map_nil, List.append_assoc,
      List.cons_append, List.nil_append]
    rw [run_actorLines h, run_assign h, run_emit h]
    rfl
  | branch condition onTrue onFalse =>
    simp only [choiceLines, hs, List.map_append, List.append_assoc]
    rw [run_branch h, run_emit h]

/-- All steps one after another. -/
theorem run_transitions (ts : List Transition) :
    ∃ y, run l holds ((ts.flatMap (stepLines d)).map String.toList ++ rest) (within x output) =
      run l holds rest
        (within y (output ++ ts.map fun t => ⟨t.step, pick holds t.successor⟩)) := by
  induction ts generalizing x output with
  | nil => exact ⟨x, by simp⟩
  | cons t ts ih =>
    obtain ⟨y, hy⟩ := ih (pick holds t.successor) (output ++ [⟨t.step, pick holds t.successor⟩])
    refine ⟨y, ?_⟩
    rw [List.flatMap_cons, List.map_append, List.append_assoc, run_stepLines h, hy]
    simp

end run

/-- The first line of the body gives the variable its value. -/
theorem run_declare {l : Language} {d : Dialect} (h : Reads l d) (holds : String → Bool)
    (rest : List (List Char)) :
    run l holds ((indented 1 (d.declare nextVariable d.null)).toList :: rest) start =
      run l holds rest (within none []) := by
  rw [run_cons_of_command h.declare 1 holds rest (by simp [start])]
  cases hi : l.indented <;> simp [commandStep, bodyStep, within, start, Execution.assign, hi]

theorem isFinal_finish (l : Language) (successor : Option (Option String)) (output : List Yielded) :
    isFinal l ⟨if l.indented then .body else .closed, successor, output⟩ = true := by
  cases hi : l.indented <;> simp [isFinal, hi]

/-- The body runs to the end of the function and yields each step with its target. -/
theorem run_body {l : Language} {d : Dialect} (h : Reads l d) (holds : String → Bool)
    (ts : List Transition) :
    ∃ s, s.isFinal l = true ∧
      s.output = (ts.map fun t => (⟨t.step, pick holds t.successor⟩ : Yielded)) ∧
      run l holds ((bodyLines d ts ++ d.functionClose.toList).map String.toList)
        (within none []) = some s := by
  -- A process without steps has a body of its own.
  cases ts with
  | nil => exact h.finishEmpty holds [] (some none)
  | cons t ts =>
    obtain ⟨y, hy⟩ := run_transitions h holds (d.functionClose.toList.map String.toList) none []
      (t :: ts)
    rw [List.nil_append] at hy
    refine ⟨_, isFinal_finish l (some y) _, rfl, ?_⟩
    rw [bodyLines, List.map_append, hy, within, h.finish]
    · rfl
    · simp

/-- The generated code yields each step with its target. -/
theorem execute_generate {l : Language} {d : Dialect} (h : Reads l d) (holds : String → Bool)
    (p : Process) :
    l.execute holds (p.generate d) =
      some (p.transitions.map fun t => ⟨t.step, pick holds t.successor⟩) := by
  obtain ⟨s, hfinal, hout, hrun⟩ := run_body h holds p.transitions
  have hlines : (allLines d p).map String.toList = l.head.map String.toList ++
      ((indented 1 (d.declare nextVariable d.null)).toList ::
        (bodyLines d p.transitions ++ d.functionClose.toList).map String.toList) := by
    simp [allLines, h.head]
  have hdrop : ((allLines d p).map String.toList).drop l.head.length =
      (indented 1 (d.declare nextVariable d.null)).toList ::
        (bodyLines d p.transitions ++ d.functionClose.toList).map String.toList := by
    rw [hlines, List.drop_left' (by rw [List.length_map])]
  rw [Language.execute, codeLines_generate h, hdrop, run_declare h, hrun]
  rw [if_pos (hlines ▸ List.prefix_append _ _)]
  simp only [hfinal, if_true, hout]

end Workflow.Generator

namespace Workflow

open Generator

theorem Step.condition?_of_some {s : Step} {c : String} (h : s.condition = some c) :
    s.condition? = if isBlankText c then none else some c := by
  cases hb : isBlankText c <;> simp [Step.condition?, h, Option.filter, hb]

/-- Where the choice of a step leads, the step goes. -/
theorem pick_choice (holds : String → Bool) (s : Step) : pick holds s.choice = s.target holds := by
  unfold Step.choice Step.target
  cases s.kind with
  | task => rfl
  | finish => rfl
  | decision =>
    cases hc : s.condition with
    | none => simp [pick, Step.condition?, hc, Execution.testHolds]
    | some c =>
      cases hb : isBlankText c <;> simp [pick, Step.condition?_of_some hc, hb, Execution.testHolds]

theorem map_pick_transitions (holds : String → Bool) (p : Process) :
    (p.transitions.map fun t => (⟨t.step, pick holds t.successor⟩ : Yielded)) = p.walk holds := by
  simp only [Process.transitions, Process.walk, List.map_map, Function.comp_def, Step.transition,
    pick_choice]

/-- A transition whose condition is answered runs to its target. -/
theorem Step.run_transition {vars : Bindings} {holds : String → Bool} {s : Step}
    (h : s.kind = .decision → ∀ c, s.condition = some c → isBlankText c = false →
      Condition.holds vars c = .ok (holds c)) :
    s.transition.run vars = .ok ⟨s.id, s.target holds⟩ := by
  have hchoose : s.choice.choose (Condition.holds vars) = .ok (s.target holds) := by
    unfold Step.choice Step.target
    cases hk : s.kind with
    | task => rfl
    | finish => rfl
    | decision =>
      cases hc : s.condition with
      | none => simp [Step.condition?, hc, Successor.choose]
      | some c =>
        cases hb : isBlankText c with
        | true => simp [Step.condition?_of_some hc, hb, Successor.choose]
        | false => simp [Step.condition?_of_some hc, hb, Successor.choose, h hk c hc hb]
  simp only [Transition.run, Step.transition, hchoose]

theorem runTransitions_of_answers {vars : Bindings} {holds : String → Bool} {steps : List Step}
    (h : ∀ s ∈ steps, s.kind = .decision → ∀ c, s.condition = some c → isBlankText c = false →
      Condition.holds vars c = .ok (holds c)) :
    runTransitions vars (steps.map Step.transition) =
      .ok (steps.map fun s => ⟨s.id, s.target holds⟩) := by
  induction steps with
  | nil => rfl
  | cons s steps ih =>
    obtain ⟨hs, hrest⟩ := List.forall_mem_cons.1 h
    rw [List.map_cons, runTransitions, Step.run_transition hs, ih hrest]
    rfl

/-- The generated code of both languages yields each step with its target, in declaration order, and
so does the simulation wherever it answers the conditions alike. -/
theorem generated_code_agrees (p : Process) (holds : String → Bool) :
    Language.python.execute holds (p.generate .python) = some (p.walk holds) ∧
    Language.javascript.execute holds (p.generate .javascript) = some (p.walk holds) ∧
    ∀ vars, p.AnswersBy vars holds → p.simulate vars = .ok (p.walk holds) := by
  refine ⟨?_, ?_, fun vars h => runTransitions_of_answers h⟩
  · rw [execute_generate reads_python holds p, map_pick_transitions]
  · rw [execute_generate reads_javascript holds p, map_pick_transitions]

/-- A process whose texts try to end a literal, a comment and a line. -/
def hostileProcess : Process where
  name := "hostile"
  steps :=
    [{ id := "it's\n", kind := .task, actor := some "a\rreturn", next := some "None" },
     { id := "None", kind := .decision, condition := some "!x", branches := ⟨none, some "\\'"⟩ },
     { id := "\\'", kind := .finish }]

theorem generated_code_agrees_hostile :
    hostileProcess.AnswersBy [("x", .bool true)] (fun _ => false) ∧
    Language.python.execute (fun _ => false) (hostileProcess.generate .python) =
      some (hostileProcess.walk fun _ => false) ∧
    hostileProcess.simulate [("x", .bool true)] = .ok (hostileProcess.walk fun _ => false) := by
  have hanswers : hostileProcess.AnswersBy [("x", .bool true)] (fun _ => false) := by
    intro s hs hk c hc _
    simp only [hostileProcess, List.mem_cons, List.not_mem_nil, or_false] at hs
    rcases hs with rfl | rfl | rfl
    · cases hk
    · cases hc
      rfl
    · cases hk
  have h := generated_code_agrees hostileProcess fun _ => false
  exact ⟨hanswers, h.1, h.2.2 _ hanswers⟩

end Workflow
