import Workflow.Proofs.Condition.Evaluation
import Workflow.Proofs.Flowchart.Transfer

namespace Workflow

namespace Step

/-- A decision asks its condition, unless the condition is blank. -/
structure Asks (s : Step) (condition : String) : Prop where
  decision : s.kind = .decision
  given : s.condition = some condition
  filled : isBlankText condition = false

def Determined (vars : Bindings) (s : Step) : Prop :=
  ∀ condition, s.Asks condition → ∃ value, Condition.evaluate vars condition = .ok (.bool value)

/-- Where a step goes on to. A decision that asks nothing goes to its second branch. -/
inductive GoesTo (vars : Bindings) (s : Step) : Option String → Prop
  | task (kind : s.kind = .task) : s.GoesTo vars s.successor?
  | asked {condition : String} {value : Bool} (asks : s.Asks condition)
      (evaluated : Condition.evaluate vars condition = .ok (.bool value)) :
      s.GoesTo vars (if value then s.branches.onTrue else s.branches.onFalse)
  | unasked (kind : s.kind = .decision) (silent : ∀ condition, ¬s.Asks condition) :
      s.GoesTo vars s.branches.onFalse
  | finish (kind : s.kind = .finish) : s.GoesTo vars none

def FailsWith (vars : Bindings) (s : Step) (failure : ConditionFailure) : Prop :=
  ∃ condition fault, s.Asks condition ∧ Condition.holds vars condition = .error fault ∧
    failure = ⟨s.id, fault.message⟩

theorem condition?_eq_some_iff {s : Step} (kind : s.kind = .decision) {condition : String} :
    s.condition? = some condition ↔ s.Asks condition := by
  rw [condition?, Option.filter_eq_some_iff, Bool.not_eq_true']
  constructor
  · rintro ⟨hgiven, hfilled⟩
    exact ⟨kind, hgiven, hfilled⟩
  · rintro ⟨-, hgiven, hfilled⟩
    exact ⟨hgiven, hfilled⟩

theorem condition?_eq_none_iff {s : Step} (kind : s.kind = .decision) :
    s.condition? = none ↔ ∀ condition, ¬s.Asks condition := by
  simp only [Option.eq_none_iff_forall_ne_some, ne_eq, condition?_eq_some_iff kind]

theorem holds_eq_ok_iff {vars : Bindings} {condition : String} {value : Bool} :
    Condition.holds vars condition = .ok value ↔ Condition.evaluate vars condition =
      .ok (.bool value) := by
  rw [Condition.holds]
  split
  · rename_i v hv
    cases v <;> simp [hv, Condition.Value.asBool]
  · rename_i fault hfault
    simp [hfault]

theorem run_of_asks {s : Step} {condition : String} (h : s.Asks condition) (vars : Bindings) :
    s.transition.run vars =
      match Condition.holds vars condition with
      | .ok value => .ok ⟨s.id, if value then s.branches.onTrue else s.branches.onFalse⟩
      | .error fault => .error ⟨s.id, fault.message⟩ := by
  have hcondition : s.condition? = some condition := (condition?_eq_some_iff h.decision).2 h
  rw [Transition.run, transition, choice, h.decision]
  dsimp only
  rw [hcondition, Successor.choose]
  cases Condition.holds vars condition <;> rfl

theorem run_of_goesTo {vars : Bindings} {s : Step} {next : Option String} (h : s.GoesTo vars next) :
    s.transition.run vars = .ok ⟨s.id, next⟩ := by
  cases h with
  | task kind => rw [Transition.run, transition, choice, kind, Successor.choose]
  | asked asks evaluated => rw [run_of_asks asks, holds_eq_ok_iff.2 evaluated]
  | unasked kind silent =>
    rw [Transition.run, transition, choice, kind]
    dsimp only
    rw [(condition?_eq_none_iff kind).2 silent, Successor.choose]
  | finish kind => rw [Transition.run, transition, choice, kind, Successor.choose]

theorem run_of_failsWith {vars : Bindings} {s : Step} {failure : ConditionFailure}
    (h : s.FailsWith vars failure) :
    s.transition.run vars = .error failure := by
  obtain ⟨condition, fault, hasks, hfault, rfl⟩ := h
  rw [run_of_asks hasks, hfault]

/-- A step goes on or fails; nothing else can come of it. -/
theorem goesTo_or_failsWith (vars : Bindings) (s : Step) :
    (∃ next, s.GoesTo vars next) ∨ ∃ failure, s.FailsWith vars failure := by
  cases hkind : s.kind with
  | task => exact Or.inl ⟨_, .task hkind⟩
  | finish => exact Or.inl ⟨_, .finish hkind⟩
  | decision =>
    cases hcondition : s.condition? with
    | none => exact Or.inl ⟨_, .unasked hkind ((condition?_eq_none_iff hkind).1 hcondition)⟩
    | some condition =>
      have hasks : s.Asks condition := (condition?_eq_some_iff hkind).1 hcondition
      cases hvalue : Condition.holds vars condition with
      | ok value => exact Or.inl ⟨_, .asked hasks (holds_eq_ok_iff.1 hvalue)⟩
      | error fault => exact Or.inr ⟨_, condition, fault, hasks, hvalue, rfl⟩

/-- A step that asks nothing goes on to the same place under all variables. -/
theorem exists_goesTo_of_silent {s : Step} (silent : ∀ condition, ¬s.Asks condition) :
    ∃ next, ∀ vars, s.GoesTo vars next := by
  cases hkind : s.kind with
  | task => exact ⟨_, fun _ => .task hkind⟩
  | decision => exact ⟨_, fun _ => .unasked hkind silent⟩
  | finish => exact ⟨_, fun _ => .finish hkind⟩

/-- A transition succeeds exactly with the pair of its step and where the step goes. -/
theorem run_eq_ok_iff {vars : Bindings} {s : Step} {y : Yielded} :
    s.transition.run vars = .ok y ↔ y.step = s.id ∧ s.GoesTo vars y.next := by
  constructor
  · intro h
    rcases goesTo_or_failsWith vars s with ⟨next, hnext⟩ | ⟨failure, hfailure⟩
    · rw [run_of_goesTo hnext] at h
      obtain rfl := Except.ok.inj h
      exact ⟨rfl, hnext⟩
    · rw [run_of_failsWith hfailure] at h
      cases h
  · rintro ⟨hid, hnext⟩
    rw [run_of_goesTo hnext, ← hid]

theorem run_eq_error_iff {vars : Bindings} {s : Step} {failure : ConditionFailure} :
    s.transition.run vars = .error failure ↔ s.FailsWith vars failure := by
  refine ⟨?_, run_of_failsWith⟩
  intro h
  rcases goesTo_or_failsWith vars s with ⟨next, hnext⟩ | ⟨failure', hfailure⟩
  · rw [run_of_goesTo hnext] at h
    cases h
  · rw [run_of_failsWith hfailure] at h
    exact Except.error.inj h ▸ hfailure

theorem not_determined_of_failsWith {vars : Bindings} {s : Step} {failure : ConditionFailure}
    (h : s.FailsWith vars failure) : ¬s.Determined vars := by
  intro hdetermined
  obtain ⟨condition, fault, hasks, hfault, -⟩ := h
  obtain ⟨value, hvalue⟩ := hdetermined condition hasks
  rw [holds_eq_ok_iff.2 hvalue] at hfault
  cases hfault

theorem determined_of_run {vars : Bindings} {s : Step} {y : Yielded}
    (h : s.transition.run vars = .ok y) :
    s.Determined vars := by
  intro condition hasks
  cases hvalue : Condition.holds vars condition with
  | ok value => exact ⟨value, holds_eq_ok_iff.1 hvalue⟩
  | error fault =>
    rw [run_of_failsWith ⟨condition, fault, hasks, hvalue, rfl⟩] at h
    cases h

/-- A step is determined exactly if its transition succeeds. -/
theorem determined_iff {vars : Bindings} {s : Step} :
    s.Determined vars ↔ ∃ y, s.transition.run vars = .ok y := by
  constructor
  · intro h
    rcases goesTo_or_failsWith vars s with ⟨next, hnext⟩ | ⟨failure, hfailure⟩
    · exact ⟨_, run_of_goesTo hnext⟩
    · exact absurd h (not_determined_of_failsWith hfailure)
  · rintro ⟨y, hy⟩
    exact determined_of_run hy

/-- A decision whose condition assigns to a variable has no truth value to go by. -/
theorem not_determined_of_assign {s : Step} {condition : String} (hasks : s.Asks condition)
    {ts : List Condition.Token} (hts : Condition.tokens condition.toList = .ok ts) {plain : Bool}
    (hassign : .assign plain ∈ ts) (vars : Bindings) : ¬s.Determined vars := by
  intro hdetermined
  obtain ⟨value, hvalue⟩ := hdetermined condition hasks
  exact Condition.evaluate_ne_ok_of_assign hts hassign vars _ hvalue

end Step

/-- A run of two parts is a run of the first, and then of the second if the first did not fail. -/
theorem runTransitions_append (vars : Bindings) (xs ys : List Transition) :
    runTransitions vars (xs ++ ys) =
      match runTransitions vars xs with
      | .error failure => .error failure
      | .ok first => (runTransitions vars ys).map (first ++ ·) := by
  induction xs with
  | nil => cases h : runTransitions vars ys <;> simp [runTransitions, h, Except.map]
  | cons t xs ih =>
    rw [List.cons_append, runTransitions, runTransitions, ih]
    cases t.run vars with
    | error failure => rfl
    | ok y =>
      cases runTransitions vars xs with
      | error failure => rfl
      | ok first => cases runTransitions vars ys <;> rfl

/-- Transitions that do not fail come before the first that does, and what comes after it does not
count. -/
theorem runTransitions_of_first_failure {vars : Bindings} {before : List Transition}
    {t : Transition} {failure : ConditionFailure} (hbefore : ∀ u ∈ before, ∃ y, u.run vars = .ok y)
    (ht : t.run vars = .error failure) (after : List Transition) :
    runTransitions vars (before ++ t :: after) = .error failure := by
  induction before with
  | nil => rw [List.nil_append, runTransitions, ht]
  | cons u before ih =>
    obtain ⟨⟨y, hy⟩, hrest⟩ := List.forall_mem_cons.1 hbefore
    rw [List.cons_append, runTransitions, hy, ih hrest]

/-- A run that fails does so at its first transition that fails. -/
theorem exists_first_failure {vars : Bindings} {ts : List Transition} {failure : ConditionFailure}
    (h : runTransitions vars ts = .error failure) :
    ∃ before t after, ts = before ++ t :: after ∧ (∀ u ∈ before, ∃ y, u.run vars = .ok y) ∧
      t.run vars = .error failure := by
  induction ts with
  | nil => cases h
  | cons t rest ih =>
    rw [runTransitions] at h
    split at h
    · rename_i ht
      obtain rfl := Except.error.inj h
      exact ⟨[], t, rest, rfl, by simp, ht⟩
    · rename_i y hy
      split at h
      · rename_i hrest
        obtain rfl := Except.error.inj h
        obtain ⟨before, u, after, rfl, hbefore, hu⟩ := ih hrest
        exact ⟨t :: before, u, after, rfl, List.forall_mem_cons.2 ⟨⟨y, hy⟩, hbefore⟩, hu⟩
      · cases h

theorem runTransitions_congr {vars vars' : Bindings} {ts : List Transition}
    (h : ∀ t ∈ ts, t.run vars = t.run vars') :
    runTransitions vars ts = runTransitions vars' ts := by
  induction ts with
  | nil => rfl
  | cons t rest ih =>
    obtain ⟨ht, hrest⟩ := List.forall_mem_cons.1 h
    rw [runTransitions, runTransitions, ht, ih hrest]

namespace Process

variable {p : Process} {vars : Bindings}

theorem simulate_eq_ok_iff {pairs : List Yielded} : p.simulate vars = .ok pairs ↔
    List.Forall₂ (fun s y => y.step = s.id ∧ s.GoesTo vars y.next) p.steps pairs := by
  simp only [simulate, runTransitions_eq_ok_iff, transitions, List.forall₂_map_left_iff,
    Step.run_eq_ok_iff]

/-- A simulation that fails does so at the first step that is not determined, whatever stands behind
it. -/
theorem exists_undetermined_of_simulate {failure : ConditionFailure}
    (h : p.simulate vars = .error failure) :
    ∃ before s after, p.steps = before ++ s :: after ∧ (∀ u ∈ before, u.Determined vars) ∧
      s.FailsWith vars failure ∧
      ∀ rest, (Process.mk p.name (before ++ s :: rest)).simulate vars = .error failure := by
  obtain ⟨earlier, t, later, here, hearlier, ht⟩ := exists_first_failure h
  obtain ⟨before, others, hsteps, rfl, hothers⟩ := List.map_eq_append_iff.1 here
  obtain ⟨s, after, rfl, rfl, rfl⟩ := List.map_eq_cons_iff.1 hothers
  refine ⟨before, s, after, hsteps, ?_, Step.run_eq_error_iff.1 ht, ?_⟩
  · intro u hu
    exact Step.determined_iff.2 (hearlier _ (List.mem_map_of_mem hu))
  · intro rest
    rw [simulate, transitions, List.map_append, List.map_cons]
    exact runTransitions_of_first_failure hearlier ht (rest.map Step.transition)

theorem exists_simulate_eq_ok_iff :
    (∃ pairs, p.simulate vars = .ok pairs) ↔ ∀ s ∈ p.steps, s.Determined vars := by
  constructor
  · rintro ⟨pairs, h⟩ s hs
    obtain ⟨i, hi, rfl⟩ := List.mem_iff_getElem.1 hs
    have hruns := simulate_eq_ok_iff.1 h
    have hlength := hruns.length_eq
    have hrun := hruns.get hi (by omega)
    exact Step.determined_of_run (Step.run_eq_ok_iff.2 hrun)
  · intro hall
    cases h : p.simulate vars with
    | ok pairs => exact ⟨pairs, rfl⟩
    | error failure =>
      obtain ⟨before, s, after, here, -, hfails, -⟩ := exists_undetermined_of_simulate h
      have hs : s ∈ p.steps := here ▸ List.mem_append_right before List.mem_cons_self
      exact absurd (hall s hs) (Step.not_determined_of_failsWith hfails)

theorem simulate_append_eq_ok_iff {xs ys : List Step} (here : p.steps = xs ++ ys)
    {pairs : List Yielded} :
    p.simulate vars = .ok pairs ↔ ∃ first others, (Process.mk p.name xs).simulate vars = .ok first ∧
      (Process.mk p.name ys).simulate vars = .ok others ∧ pairs = first ++ others := by
  rw [simulate, transitions, here, List.map_append, runTransitions_append]
  simp only [simulate, transitions]
  cases runTransitions vars (xs.map Step.transition) with
  | error failure => simp
  | ok first =>
    cases runTransitions vars (ys.map Step.transition) with
    | error failure => simp [Except.map]
    | ok others => simp [Except.map, eq_comm]

/-- A step yields alone what it yields among others. -/
theorem simulate_singleton {s : Step} {y : Yielded} (h : y.step = s.id ∧ s.GoesTo vars y.next)
    (name : String) :
    (Process.mk name [s]).simulate vars = .ok [y] :=
  simulate_eq_ok_iff.2 (.cons h .nil)

/-- A simulation walks through the steps and succeeds if and only if every condition that is asked
has a truth value; then it yields a pair for each step, in order. Otherwise it fails at the first
decision whose condition has none, and what stands behind that decision makes no difference. So
steps put behind others are simulated after them, each step comes out as it does alone, and a
condition that would assign to a variable has no value. -/
theorem simulate_walks (p : Process) (vars : Bindings) :
    ((∃ pairs, p.simulate vars = .ok pairs) ↔ ∀ s ∈ p.steps, s.Determined vars) ∧
    (∀ pairs, p.simulate vars = .ok pairs →
      List.Forall₂ (fun s y => y.step = s.id ∧ s.GoesTo vars y.next) p.steps pairs) ∧
    (∀ failure, p.simulate vars = .error failure →
      ∃ before s after, p.steps = before ++ s :: after ∧ (∀ u ∈ before, u.Determined vars) ∧
        ¬s.Determined vars ∧ s.FailsWith vars failure ∧
        ∀ rest, (Process.mk p.name (before ++ s :: rest)).simulate vars = .error failure) ∧
    (∀ xs ys, p.steps = xs ++ ys → ∀ pairs, p.simulate vars = .ok pairs ↔
      ∃ first others, (Process.mk p.name xs).simulate vars = .ok first ∧
        (Process.mk p.name ys).simulate vars = .ok others ∧ pairs = first ++ others) ∧
    (∀ pairs, p.simulate vars = .ok pairs →
      List.Forall₂ (fun s y => (Process.mk p.name [s]).simulate vars = .ok [y]) p.steps pairs) ∧
    (∀ (s : Step) (condition : String) (ts : List Condition.Token) (plain : Bool),
      s.Asks condition →
      Condition.tokens condition.toList = .ok ts → .assign plain ∈ ts → ¬s.Determined vars) := by
  refine ⟨exists_simulate_eq_ok_iff, fun pairs => simulate_eq_ok_iff.1, ?_, ?_, ?_, ?_⟩
  · intro failure h
    obtain ⟨before, s, after, here, hbefore, hfails, hrest⟩ := exists_undetermined_of_simulate h
    exact ⟨before, s, after, here, hbefore, Step.not_determined_of_failsWith hfails, hfails, hrest⟩
  · intro xs ys here pairs
    exact simulate_append_eq_ok_iff here
  · intro pairs h
    exact (simulate_eq_ok_iff.1 h).imp fun s y hy => simulate_singleton hy p.name
  · intro s condition ts plain hasks hts hassign
    exact Step.not_determined_of_assign hasks hts hassign vars

/-- A decision on an amount, and one whose condition would assign to the amount. -/
def amountProcess : Process where
  name := "amount"
  steps :=
    [{ id := "review", kind := .decision, condition := some "amount > 500",
       branches := ⟨some "raise", some "done"⟩ },
     { id := "raise", kind := .decision, condition := some "amount = 0",
       branches := ⟨some "done", none⟩ },
     { id := "done", kind := .finish }]

theorem simulate_walks_amount :
    let vars : Bindings := [("amount", .number (.int 700))]
    let failure : ConditionFailure := ⟨"raise", "Cannot manipulate context"⟩
    amountProcess.simulate vars = .error failure ∧
    (Process.mk "amount" (amountProcess.steps.take 1)).simulate vars =
    .ok [⟨"review", some "raise"⟩] ∧
    (∀ s ∈ amountProcess.steps.take 1, s.Determined vars) ∧
    ¬(amountProcess.steps[1]).Determined vars := by
  intro vars failure
  have hfirst : (Process.mk "amount" (amountProcess.steps.take 1)).simulate vars =
      .ok [⟨"review", some "raise"⟩] := by decide +kernel
  obtain ⟨hall, -⟩ := simulate_walks (Process.mk "amount" (amountProcess.steps.take 1)) vars
  obtain ⟨-, -, -, -, -, hassign⟩ := simulate_walks amountProcess vars
  refine ⟨by decide +kernel, hfirst, hall.1 ⟨_, hfirst⟩, ?_⟩
  exact hassign _ "amount = 0" [.name "amount", .assign true, .int 0] true
    ⟨rfl, rfl, by decide⟩ (by rfl) (by simp)

end Process

end Workflow
