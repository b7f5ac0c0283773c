import Workflow.Process.Builder
/-!
What a builder makes of a sequence of actions. The actions that add a step cut the sequence into
segments, and each step depends on the actions of its own segment alone: it is the step that was
added, with the last value that the segment gives for a field in place of the first one.
-/

namespace Workflow.Builder

namespace Action

def added? : Action → Option Step
  | task id actor => some { id, kind := .task, actor := some actor }
  | decision id text => some { id, kind := .decision, condition := some text }
  | finish id => some { id, kind := .finish }
  | add step => some step
  | next _ => none
  | condition _ => none
  | branch .. => none

def next? : Action → Option String
  | next target => some target
  | _ => none

def condition? : Action → Option String
  | condition text => some text
  | _ => none

def branch? (label : BranchLabel) : Action → Option String
  | branch l target => if l = label then some target else none
  | _ => none

end Action

def lastGiven (value? : Action → Option String) (actions : List Action) : Option String :=
  (actions.filterMap value?).getLast?

/-- A step with the last values that some modifiers give; a field for which they give none stays. -/
def withGiven (s : Step) (modifiers : List Action) : Step :=
  { s with
    next := (lastGiven Action.next? modifiers).or s.next
    condition := (lastGiven Action.condition? modifiers).or s.condition
    branches := {
      onTrue := (lastGiven (Action.branch? .onTrue) modifiers).or s.branches.onTrue
      onFalse := (lastGiven (Action.branch? .onFalse) modifiers).or s.branches.onFalse } }

/-- An action that adds a step, and the modifiers up to the next such action. -/
structure Segment where
  action : Action
  step : Step
  adds : action.added? = some step
  modifiers : List Action
  plain : ∀ a ∈ modifiers, a.added? = none

namespace Segment

def actions (g : Segment) : List Action :=
  g.action :: g.modifiers

/-- The step that a segment leaves behind. -/
def result (g : Segment) : Step :=
  withGiven g.step g.modifiers

end Segment

/-- A sequence of actions cut before each action that adds a step. -/
structure Cut (actions : List Action) where
  lead : List Action
  segments : List Segment
  plain : ∀ a ∈ lead, a.added? = none
  whole : lead ++ segments.flatMap Segment.actions = actions

def run (name : String) (actions : List Action) : Builder :=
  actions.foldl act { name }

section writes

theorem lastGiven_cons (value? : Action → Option String) (a : Action) (rest : List Action) :
    lastGiven value? (a :: rest) = (lastGiven value? rest).or (value? a) := by
  rw [lastGiven, lastGiven, List.filterMap_cons]
  cases value? a with
  | none => exact (Option.or_none).symm
  | some value =>
    rw [List.getLast?_cons]
    cases (rest.filterMap value?).getLast? <;> rfl

/-- Giving values one by one: the later ones cover the earlier ones. -/
theorem withGiven_cons (s : Step) (a : Action) (rest : List Action) :
    withGiven s (a :: rest) = withGiven (withGiven s [a]) rest := by
  have hone (value? : Action → Option String) : lastGiven value? [a] = value? a :=
    lastGiven_cons value? a []
  simp only [withGiven, lastGiven_cons _ a rest, hone, Option.or_assoc]

theorem add_modify (b : Builder) (s : Step) (f : Step → Step) :
    (b.add s).modify f = b.add (f s) := by
  have hsteps := b.steps_modify_add s f
  simpa [modify, add] using hsteps

theorem act_of_added {a : Action} {s : Step} (h : a.added? = some s) (b : Builder) :
    b.act a = b.add s := by
  cases a <;> cases h <;> rfl

/-- A modifier gives its value to the step that was added last. -/
theorem add_act {a : Action} (h : a.added? = none) (b : Builder) (s : Step) :
    (b.add s).act a = b.add (withGiven s [a]) := by
  cases a with
  | next target => exact b.add_modify s _
  | condition text => exact b.add_modify s _
  | branch label target =>
    rw [act, branch, add_modify]
    cases label <;> rfl
  | task | decision | finish | add => cases h

/-- Before the first step a modifier does nothing. -/
theorem act_of_empty {a : Action} (h : a.added? = none) (name : String) :
    act { name } a = { name } := by
  cases a with
  | next | condition | branch => rfl
  | task | decision | finish | add => cases h

end writes

section runs

theorem foldl_act_empty {actions : List Action} (plain : ∀ a ∈ actions, a.added? = none)
    (name : String) :
    actions.foldl act { name } = { name } := by
  induction actions with
  | nil => rfl
  | cons a rest ih =>
    rw [List.forall_mem_cons] at plain
    rw [List.foldl_cons, act_of_empty plain.1, ih plain.2]

theorem foldl_act_add {modifiers : List Action} (plain : ∀ a ∈ modifiers, a.added? = none)
    (b : Builder) (s : Step) : modifiers.foldl act (b.add s) = b.add (withGiven s modifiers) := by
  induction modifiers generalizing s with
  | nil => rfl
  | cons a rest ih =>
    rw [List.forall_mem_cons] at plain
    rw [List.foldl_cons, add_act plain.1, ih plain.2, ← withGiven_cons]

theorem foldl_act_segment (g : Segment) (b : Builder) : g.actions.foldl act b = b.add g.result := by
  rw [Segment.actions, List.foldl_cons, act_of_added g.adds, foldl_act_add g.plain, Segment.result]

/-- Each segment adds its own step and leaves those before it alone. -/
theorem foldl_act_segments (segments : List Segment) (b : Builder) :
    (segments.flatMap Segment.actions).foldl act b =
      ⟨b.name, b.steps ++ segments.map Segment.result⟩ := by
  induction segments generalizing b with
  | nil => simp
  | cons g rest ih =>
    rw [List.flatMap_cons, List.foldl_append, foldl_act_segment, ih]
    simp [add]

theorem run_cut {actions : List Action} (cut : Cut actions) (name : String) :
    run name actions = ⟨name, cut.segments.map Segment.result⟩ := by
  obtain ⟨lead, segments, plain, rfl⟩ := cut
  rw [run, List.foldl_append, foldl_act_empty plain, foldl_act_segments]
  rfl

end runs

namespace Cut

/-- One more action in front opens a segment with the modifiers that stood in the lead, or joins
them. -/
theorem exists_cut (actions : List Action) : Nonempty (Cut actions) := by
  induction actions with
  | nil => exact ⟨⟨[], [], by simp, rfl⟩⟩
  | cons a rest ih =>
    obtain ⟨cut⟩ := ih
    cases hadded : a.added? with
    | some s =>
      refine ⟨⟨[], ⟨a, s, hadded, cut.lead, cut.plain⟩ :: cut.segments, by simp, ?_⟩⟩
      simp [Segment.actions, cut.whole]
    | none =>
      refine ⟨⟨a :: cut.lead, cut.segments, List.forall_mem_cons.2 ⟨hadded, cut.plain⟩, ?_⟩⟩
      rw [List.cons_append, cut.whole]

/-- Whatever follows the modifiers at the start begins with an action that adds a step. -/
theorem takeWhile_append_segments {lead : List Action} (plain : ∀ a ∈ lead, a.added? = none)
    (segments : List Segment) :
    (lead ++ segments.flatMap Segment.actions).takeWhile (·.added?.isNone) = lead := by
  rw [List.takeWhile_append_of_pos (by simpa using plain)]
  cases segments with
  | nil => simp
  | cons g rest => simp [Segment.actions, g.adds]

/-- There is one way only to cut actions before those that add a step. -/
theorem eq_of_append_eq {lead lead' : List Action} {segments segments' : List Segment}
    (plain : ∀ a ∈ lead, a.added? = none) (plain' : ∀ a ∈ lead', a.added? = none)
    (h : lead ++ segments.flatMap Segment.actions = lead' ++ segments'.flatMap Segment.actions) :
    lead = lead' ∧ segments = segments' := by
  have hlead : lead = lead' := by
    rw [← takeWhile_append_segments plain segments, h, takeWhile_append_segments plain' segments']
  subst hlead
  refine ⟨rfl, ?_⟩
  have hrest := List.append_cancel_left h
  -- The modifiers of the first segment lead the segments behind it.
  induction segments generalizing segments' lead with
  | nil =>
    cases segments' with
    | nil => rfl
    | cons g' rest' => simp [Segment.actions] at hrest
  | cons g rest ih =>
    cases segments' with
    | nil => simp [Segment.actions] at hrest
    | cons g' rest' =>
      obtain ⟨action, step, adds, modifiers, hplain⟩ := g
      obtain ⟨action', step', adds', modifiers', hplain'⟩ := g'
      simp only [List.flatMap_cons, Segment.actions, List.cons_append, List.cons.injEq] at hrest
      obtain ⟨rfl, hbehind⟩ := hrest
      obtain rfl := Option.some.inj (adds.symm.trans adds')
      have hmodifiers : modifiers = modifiers' := by
        rw [← takeWhile_append_segments hplain rest, hbehind,
          takeWhile_append_segments hplain' rest']
      subst hmodifiers
      rw [ih hplain hplain hbehind (List.append_cancel_left hbehind)]

theorem unique {actions : List Action} (cut other : Cut actions) : other = cut := by
  obtain ⟨lead, segments, plain, whole⟩ := cut
  obtain ⟨lead', segments', plain', whole'⟩ := other
  obtain ⟨rfl, rfl⟩ := eq_of_append_eq plain' plain (whole'.trans whole.symm)
  rfl

end Cut

section frame

theorem dropLast_modifyLast (f : Step → Step) (steps : List Step) :
    (modifyLast f steps).dropLast = steps.dropLast := by
  rcases List.eq_nil_or_concat steps with rfl | ⟨before, s, rfl⟩
  · rfl
  · have hsteps := steps_modify_add ⟨"", before⟩ s f
    simp only [modify, add] at hsteps
    rw [List.concat_eq_append, hsteps, List.dropLast_concat, List.dropLast_concat]

/-- No action changes a step before the latest one. -/
theorem dropLast_prefix_act (b : Builder) (a : Action) :
    b.steps.dropLast <+: (b.act a).steps.dropLast := by
  cases hadded : a.added? with
  | some s =>
    rw [act_of_added hadded, add, List.dropLast_concat]
    exact List.dropLast_prefix b.steps
  | none =>
    cases a with
    | next | condition | branch =>
      simp only [act, next, condition, branch, modify, dropLast_modifyLast]
      exact List.prefix_refl _
    | task | decision | finish | add => cases hadded

theorem dropLast_prefix_foldl_act (b : Builder) (actions : List Action) :
    b.steps.dropLast <+: (actions.foldl act b).steps.dropLast := by
  induction actions generalizing b with
  | nil => exact List.prefix_refl _
  | cons a rest ih => exact (b.dropLast_prefix_act a).trans (ih (b.act a))

end frame

/-- A sequence of actions is cut before each action that adds a step, in one way only. The built
process has one step for each segment, in order: the one that the segment adds, with the last values
that its modifiers give, and all else as it was added; modifiers in front of the first segment leave
no trace. Whatever actions follow, the steps before the latest one stay as they are. -/
theorem build_segments (name : String) (actions : List Action) :
    (∃ cut : Cut actions, (∀ other : Cut actions, other = cut) ∧
      (run name actions).build = ⟨name, cut.segments.map Segment.result⟩) ∧
    ∀ later : List Action, (run name actions).steps.dropLast <+:
      (run name (actions ++ later)).steps := by
  constructor
  · obtain ⟨cut⟩ := Cut.exists_cut actions
    refine ⟨cut, cut.unique, ?_⟩
    rw [run_cut cut, build]
  · intro later
    have hframe := dropLast_prefix_foldl_act (run name actions) later
    rw [run, run, List.foldl_append]
    exact hframe.trans (List.dropLast_prefix _)

/-- A modifier before the first step is lost, and of two successors the later one stays. -/
example :
    (run "n" [.next "x", .task "a" "b", .next "y", .branch .onFalse "w", .next "z",
      .finish "e"]).build.steps =
      [{ id := "a", kind := .task, actor := some "b", next := some "z",
         branches := { onFalse := some "w" } },
       { id := "e", kind := .finish }] := by
  decide

end Workflow.Builder
