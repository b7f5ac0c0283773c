import Workflow.Invariant
/-!
The invariants of a process, said without the order in which they are checked, and the violation
that comes first. `Process.check` accepts exactly the processes that keep every invariant, and of a
process that breaks one it reports the first violation. A repeated id is that violation unless a
task before it lacks its actor.
-/

namespace Workflow

def Step.Performed (s : Step) : Prop :=
  s.kind = .task → ∃ actor, s.actor = some actor ∧ actor ≠ ""

/-- Neither the id nor the actor of a step is at fault, after the steps `before`. -/
structure Step.Fit (before : List Step) (s : Step) : Prop where
  fresh : ∀ u ∈ before, u.id ≠ s.id
  performed : s.Performed

def FitAfter (done steps : List Step) : Prop :=
  ∀ before s after, steps = before ++ s :: after → s.Fit (done ++ before)

abbrev AllFit (steps : List Step) : Prop :=
  FitAfter [] steps

namespace Process

def Declares (p : Process) (id : String) : Prop :=
  ∃ s ∈ p.steps, s.id = id

/-- The successor of a step, if it is not empty, is a step. -/
def KnowsNext (p : Process) (s : Step) : Prop :=
  ∀ target, s.next = some target → target ≠ "" → p.Declares target

def KnowsBranch (p : Process) (s : Step) (label : BranchLabel) : Prop :=
  ∀ target, s.branches.get? label = some target → p.Declares target

structure Settles (p : Process) (s : Step) : Prop where
  next : p.KnowsNext s
  branch : ∀ label, p.KnowsBranch s label

/-- A process that keeps every invariant. -/
structure WellFormed (p : Process) : Prop where
  distinct : p.ids.Nodup
  performed : ∀ s ∈ p.steps, s.Performed
  settled : ∀ s ∈ p.steps, p.Settles s
  ends : ∀ s, p.steps.getLast? = some s → s.kind = .finish

/-- The first violation of a process. Ids and actors come before references, references before the
last step; within these, earlier steps come first, and at one step the id before the actor and the
successor before the branches. -/
inductive FirstViolation (p : Process) : Violation → Prop
  | duplicateId {before after : List Step} {s : Step} (here : p.steps = before ++ s :: after)
      (fit : AllFit before) (seen : ∃ u ∈ before, u.id = s.id) :
      FirstViolation p (.duplicateId s.id)
  | missingActor {before after : List Step} {s : Step} (here : p.steps = before ++ s :: after)
      (fit : AllFit before) (fresh : ∀ u ∈ before, u.id ≠ s.id) (lacks : ¬s.Performed) :
      FirstViolation p (.missingActor s.id)
  | unknownNext {before after : List Step} {s : Step} {target : String} (fit : AllFit p.steps)
      (here : p.steps = before ++ s :: after) (settled : ∀ u ∈ before, p.Settles u)
      (next : s.next = some target) (filled : target ≠ "") (unknown : ¬p.Declares target) :
      FirstViolation p (.unknownNext s.id target)
  | unknownThen {before after : List Step} {s : Step} {target : String} (fit : AllFit p.steps)
      (here : p.steps = before ++ s :: after) (settled : ∀ u ∈ before, p.Settles u)
      (next : p.KnowsNext s) (branch : s.branches.onTrue = some target)
      (unknown : ¬p.Declares target) :
      FirstViolation p (.unknownBranch s.id .onTrue target)
  | unknownElse {before after : List Step} {s : Step} {target : String} (fit : AllFit p.steps)
      (here : p.steps = before ++ s :: after) (settled : ∀ u ∈ before, p.Settles u)
      (next : p.KnowsNext s) (first : p.KnowsBranch s .onTrue)
      (branch : s.branches.onFalse = some target) (unknown : ¬p.Declares target) :
      FirstViolation p (.unknownBranch s.id .onFalse target)
  | lastNotEnd {before : List Step} {s : Step} (fit : AllFit p.steps)
      (settled : ∀ u ∈ p.steps, p.Settles u) (here : p.steps = before ++ [s])
      (unfinished : s.kind ≠ .finish) :
      FirstViolation p .lastNotEnd

end Process

theorem nonEmpty?_eq_some_iff {text : Option String} {s : String} :
    nonEmpty? text = some s ↔ text = some s ∧ s ≠ "" := by
  simp [nonEmpty?, Option.filter_eq_some_iff]

theorem Step.lacksActor_iff (s : Step) : s.lacksActor = true ↔ ¬s.Performed := by
  have hp : s.performer? = none ↔ ¬∃ actor, s.actor = some actor ∧ actor ≠ "" := by
    rw [Option.eq_none_iff_forall_ne_some]
    simp only [Step.performer?, ne_eq, nonEmpty?_eq_some_iff, not_exists]
  simp only [Step.lacksActor, Bool.and_eq_true, decide_eq_true_eq, Option.isNone_iff_eq_none, hp,
    Step.Performed, Classical.not_imp]

theorem Process.mem_ids_iff (p : Process) (id : String) : id ∈ p.ids ↔ p.Declares id := by
  simp only [Process.ids, List.mem_map, Process.Declares]

theorem fitAfter_nil (done : List Step) : FitAfter done [] := by
  intro before s after h
  exact absurd h.symm (List.append_ne_nil_of_right_ne_nil before (List.cons_ne_nil s after))

/-- The first step is fit after those that are done, and the others are fit after it too. -/
theorem fitAfter_cons {done r : List Step} {s : Step} :
    FitAfter done (s :: r) ↔ s.Fit done ∧ FitAfter (done ++ [s]) r := by
  constructor
  · intro h
    refine ⟨by simpa using h [] s r rfl, fun before u after hr => ?_⟩
    have hu := h (s :: before) u after (by rw [hr, List.cons_append])
    simpa only [List.append_assoc, List.singleton_append] using hu
  · rintro ⟨hs, hr⟩ before u after h
    cases before with
    | nil =>
      obtain ⟨rfl, -⟩ := List.cons.inj h
      simpa using hs
    | cons v before =>
      obtain ⟨rfl, ht⟩ := List.cons.inj h
      simpa only [List.append_assoc, List.singleton_append] using hr before u after ht

def Seen (seen : List String) (done : List Step) : Prop :=
  ∀ id, id ∈ seen ↔ ∃ u ∈ done, u.id = id

theorem seen_nil : Seen [] [] := by simp [Seen]

/-- The ids that were seen and the steps that are done grow together. -/
theorem Seen.cons {seen : List String} {done : List Step} (h : Seen seen done) (s : Step) :
    Seen (s.id :: seen) (done ++ [s]) := by
  intro id
  simp only [List.mem_cons, h id, List.mem_append, List.not_mem_nil, or_false]
  constructor
  · rintro (rfl | ⟨u, hu, rfl⟩)
    · exact ⟨s, Or.inr rfl, rfl⟩
    · exact ⟨u, Or.inl hu, rfl⟩
  · rintro ⟨u, hu | rfl, rfl⟩
    · exact Or.inr ⟨u, hu, rfl⟩
    · exact Or.inl rfl

/-- A step that is fit is passed over. -/
theorem firstUnfit?_cons_of_fit {seen : List String} {done : List Step} {s : Step}
    (h : Seen seen done) (hs : s.Fit done) (r : List Step) :
    firstUnfit? seen (s :: r) = firstUnfit? (s.id :: seen) r := by
  have hfresh : s.id ∉ seen := by
    rw [h s.id]
    rintro ⟨u, hu, he⟩
    exact hs.fresh u hu he
  have hactor : ¬s.lacksActor = true := by
    rw [s.lacksActor_iff]
    exact not_not_intro hs.performed
  rw [firstUnfit?, if_neg hfresh, if_neg hactor]

/-- Fit steps at the start are passed over. -/
theorem firstUnfit?_append {seen : List String} {done fit : List Step} (h : Seen seen done)
    (hf : FitAfter done fit) (r : List Step) :
    ∃ seen', Seen seen' (done ++ fit) ∧ firstUnfit? seen (fit ++ r) = firstUnfit? seen' r := by
  induction fit generalizing seen done with
  | nil => exact ⟨seen, by simpa using h, rfl⟩
  | cons s fit ih =>
    obtain ⟨hs, ht⟩ := fitAfter_cons.1 hf
    obtain ⟨seen', hseen, he⟩ := ih (h.cons s) ht
    refine ⟨seen', by simpa using hseen, ?_⟩
    rw [List.cons_append, firstUnfit?_cons_of_fit h hs, he]

/-- Either all steps are fit or there is a first one that is not. -/
theorem allFit_or_first_unfit (done steps : List Step) :
    FitAfter done steps ∨ ∃ before s after, steps = before ++ s :: after ∧
      FitAfter done before ∧ ¬s.Fit (done ++ before) := by
  induction steps generalizing done with
  | nil => exact Or.inl (fitAfter_nil done)
  | cons s r ih =>
    by_cases hs : s.Fit done
    · rcases ih (done ++ [s]) with hr | ⟨before, u, after, rfl, hb, hu⟩
      · exact Or.inl (fitAfter_cons.2 ⟨hs, hr⟩)
      · refine Or.inr ⟨s :: before, u, after, rfl, fitAfter_cons.2 ⟨hs, hb⟩, ?_⟩
        simpa only [List.append_assoc, List.singleton_append] using hu
    · exact Or.inr ⟨[], s, r, rfl, fitAfter_nil done, by simpa using hs⟩

theorem firstUnfit?_of_allFit {steps : List Step} (h : AllFit steps) :
    firstUnfit? [] steps = none := by
  obtain ⟨seen, -, he⟩ := firstUnfit?_append seen_nil h []
  rw [List.append_nil] at he
  rw [he, firstUnfit?]

/-- A step whose id is there already is reported before its actor is looked at. -/
theorem firstUnfit?_of_seen {before after : List Step} {s : Step} (h : AllFit before)
    (hs : ∃ u ∈ before, u.id = s.id) :
    firstUnfit? [] (before ++ s :: after) = some (.duplicateId s.id) := by
  obtain ⟨seen, hseen, he⟩ := firstUnfit?_append seen_nil h (s :: after)
  have hmem : s.id ∈ seen := (hseen s.id).2 (by simpa using hs)
  rw [he, firstUnfit?, if_pos hmem]

/-- A step whose id is new is reported for its missing actor. -/
theorem firstUnfit?_of_lacksActor {before after : List Step} {s : Step} (h : AllFit before)
    (hs : ∀ u ∈ before, u.id ≠ s.id) (ha : ¬s.Performed) :
    firstUnfit? [] (before ++ s :: after) = some (.missingActor s.id) := by
  obtain ⟨seen, hseen, he⟩ := firstUnfit?_append seen_nil h (s :: after)
  have hmem : s.id ∉ seen := by
    rw [hseen s.id]
    rintro ⟨u, hu, hid⟩
    exact hs u (by simpa using hu) hid
  rw [he, firstUnfit?, if_neg hmem, if_pos (s.lacksActor_iff.2 ha)]

/-- Distinct ids and named actors are what makes all steps fit. -/
theorem allFit_iff (steps : List Step) :
    AllFit steps ↔ (steps.map Step.id).Nodup ∧ ∀ s ∈ steps, s.Performed := by
  constructor
  · intro h
    refine ⟨List.pairwise_map.2 (List.pairwise_iff_forall_sublist.2 ?_), ?_⟩
    · intro u s hsub
      -- The sublist `[u, s]` places `u` before `s`, where `s` is fresh.
      obtain ⟨before, rest, rfl, hu, hs⟩ := List.cons_sublist_iff.1 hsub
      obtain ⟨mid, after, rfl⟩ := List.append_of_mem (List.singleton_sublist.1 hs)
      exact (h (before ++ mid) s after (by simp)).fresh u (by simp [hu])
    · intro s hs
      obtain ⟨before, after, he⟩ := List.append_of_mem hs
      exact (h before s after he).performed
  · rintro ⟨hd, hp⟩ before s after rfl
    refine ⟨fun u hu hid => ?_, hp s (by simp)⟩
    rw [List.map_append, List.map_cons] at hd
    exact (List.nodup_append.1 hd).2.2 u.id (List.mem_map_of_mem hu) s.id (by simp) hid

namespace Process

variable {p : Process}

theorem filter_successor?_eq_none_iff (s : Step) :
    s.successor?.filter (· ∉ p.ids) = none ↔ p.KnowsNext s := by
  simp only [Option.filter_eq_none_iff, Step.successor?, nonEmpty?_eq_some_iff, decide_eq_true_eq,
    Classical.not_not, p.mem_ids_iff, KnowsNext, and_imp]

theorem filter_successor?_eq_some {s : Step} {target : String} (hn : s.next = some target)
    (hf : target ≠ "") (hu : ¬p.Declares target) :
    s.successor?.filter (· ∉ p.ids) = some target := by
  have hsome : s.successor? = some target := nonEmpty?_eq_some_iff.2 ⟨hn, hf⟩
  simp [hsome, p.mem_ids_iff, hu]

/-- The branches of a step, the one of a true condition first. -/
theorem branches_toList (b : Branches) :
    b.toList = ((b.get? .onTrue).map (BranchLabel.onTrue, ·)).toList ++
      ((b.get? .onFalse).map (BranchLabel.onFalse, ·)).toList := by
  cases ht : b.get? .onTrue <;> cases hf : b.get? .onFalse <;>
    simp [Branches.toList, BranchLabel.all, ht, hf]

theorem find?_branch_of_known {s : Step} {label : BranchLabel} (h : p.KnowsBranch s label)
    {target : Option String} (ht : s.branches.get? label = target) :
    ((target.map (label, ·)).toList.find? fun b => b.2 ∉ p.ids) = none := by
  cases target with
  | none => rfl
  | some target => simp [p.mem_ids_iff, h target ht]

theorem find?_branch_of_unknown {target : String} (label : BranchLabel) (h : ¬p.Declares target)
    (r : List (BranchLabel × String)) :
    (((some target).map (label, ·)).toList ++ r).find? (fun b => b.2 ∉ p.ids) =
      some (label, target) := by
  simp [p.mem_ids_iff, h]

theorem dangling?_of_knowsNext {s : Step} (h : p.KnowsNext s) :
    s.dangling? p.ids = (s.branches.toList.find? fun b => b.2 ∉ p.ids).map fun b =>
      .unknownBranch s.id b.1 b.2 := by
  rw [Step.dangling?, (filter_successor?_eq_none_iff s).2 h]

/-- Either all references of a step lead to steps or there is a first one that does not. -/
theorem settles_or_first_unknown (s : Step) : p.Settles s ∨
    (∃ target, s.next = some target ∧ target ≠ "" ∧ ¬p.Declares target) ∨
    (p.KnowsNext s ∧ ∃ target, s.branches.onTrue = some target ∧ ¬p.Declares target) ∨
    (p.KnowsNext s ∧ p.KnowsBranch s .onTrue ∧
      ∃ target, s.branches.onFalse = some target ∧ ¬p.Declares target) := by
  by_cases hn : p.KnowsNext s
  · by_cases ht : p.KnowsBranch s .onTrue
    · by_cases hf : p.KnowsBranch s .onFalse
      · refine Or.inl ⟨hn, fun label => ?_⟩
        cases label with
        | onTrue => exact ht
        | onFalse => exact hf
      · simp only [KnowsBranch, Classical.not_forall, Branches.get?] at hf
        obtain ⟨target, hb, hu⟩ := hf
        exact Or.inr (Or.inr (Or.inr ⟨hn, ht, target, hb, hu⟩))
    · simp only [KnowsBranch, Classical.not_forall, Branches.get?] at ht
      obtain ⟨target, hb, hu⟩ := ht
      exact Or.inr (Or.inr (Or.inl ⟨hn, target, hb, hu⟩))
  · simp only [KnowsNext, Classical.not_forall] at hn
    obtain ⟨target, hs, hf, hu⟩ := hn
    exact Or.inr (Or.inl ⟨target, hs, hf, hu⟩)

theorem dangling?_of_settles {s : Step} (h : p.Settles s) : s.dangling? p.ids = none := by
  rw [dangling?_of_knowsNext h.next, branches_toList, List.find?_append,
    find?_branch_of_known (h.branch .onTrue) rfl, find?_branch_of_known (h.branch .onFalse) rfl]
  rfl

theorem dangling?_of_unknownNext {s : Step} {target : String} (hn : s.next = some target)
    (hf : target ≠ "") (hu : ¬p.Declares target) :
    s.dangling? p.ids = some (.unknownNext s.id target) := by
  rw [Step.dangling?, filter_successor?_eq_some hn hf hu]

theorem dangling?_of_unknownThen {s : Step} {target : String} (hn : p.KnowsNext s)
    (hb : s.branches.get? .onTrue = some target) (hu : ¬p.Declares target) :
    s.dangling? p.ids = some (.unknownBranch s.id .onTrue target) := by
  rw [dangling?_of_knowsNext hn, branches_toList, hb, find?_branch_of_unknown .onTrue hu]
  rfl

theorem dangling?_of_unknownElse {s : Step} {target : String} (hn : p.KnowsNext s)
    (ht : p.KnowsBranch s .onTrue) (hb : s.branches.get? .onFalse = some target)
    (hu : ¬p.Declares target) :
    s.dangling? p.ids = some (.unknownBranch s.id .onFalse target) := by
  have hlast := find?_branch_of_unknown (p := p) .onFalse hu []
  rw [List.append_nil] at hlast
  rw [dangling?_of_knowsNext hn, branches_toList, List.find?_append,
    find?_branch_of_known ht rfl, hb, hlast]
  rfl

theorem findSome?_dangling?_of_settled {steps : List Step} (h : ∀ u ∈ steps, p.Settles u) :
    steps.findSome? (Step.dangling? p.ids) = none :=
  List.findSome?_eq_none_iff.2 fun u hu => dangling?_of_settles (h u hu)

theorem findSome?_dangling?_of_first {before after : List Step} {s : Step} {v : Violation}
    (h : ∀ u ∈ before, p.Settles u) (hs : s.dangling? p.ids = some v) :
    (before ++ s :: after).findSome? (Step.dangling? p.ids) = some v := by
  rw [List.findSome?_append, findSome?_dangling?_of_settled h, Option.none_or,
    List.findSome?_cons, hs]

/-- Either all steps are settled or there is a first one that is not. -/
theorem settled_or_first_unsettled (steps : List Step) : (∀ u ∈ steps, p.Settles u) ∨
    ∃ before s after, steps = before ++ s :: after ∧ (∀ u ∈ before, p.Settles u) ∧
      ¬p.Settles s := by
  induction steps with
  | nil => exact Or.inl (by simp)
  | cons s r ih =>
    by_cases hs : p.Settles s
    · rcases ih with hr | ⟨before, u, after, rfl, hb, hu⟩
      · exact Or.inl (List.forall_mem_cons.2 ⟨hs, hr⟩)
      · exact Or.inr ⟨s :: before, u, after, rfl, List.forall_mem_cons.2 ⟨hs, hb⟩, hu⟩
    · exact Or.inr ⟨[], s, r, rfl, by simp, hs⟩

theorem check_eq_error {v : Violation} (h : p.violation? = some v) : p.check = .error v := by
  rw [check, h]

theorem violation?_of_allFit (h : AllFit p.steps) :
    p.violation? = (p.steps.findSome? (Step.dangling? p.ids)).or (unfinished? p.steps) := by
  rw [violation?, firstUnfit?_of_allFit h, Option.none_or]

/-- A first violation among the references of a step is the one reported. -/
theorem check_of_dangling {before after : List Step} {s : Step} {v : Violation}
    (fit : AllFit p.steps) (here : p.steps = before ++ s :: after)
    (settled : ∀ u ∈ before, p.Settles u) (hs : s.dangling? p.ids = some v) :
    p.check = .error v := by
  apply check_eq_error
  rw [violation?_of_allFit fit, here, findSome?_dangling?_of_first settled hs, Option.some_or]

/-- A violation that comes before all others is the one that is reported. -/
theorem check_of_firstViolation {v : Violation} (h : p.FirstViolation v) : p.check = .error v := by
  cases h with
  | duplicateId here fit seen =>
    apply check_eq_error
    rw [violation?, here, firstUnfit?_of_seen fit seen, Option.some_or]
  | missingActor here fit fresh lacks =>
    apply check_eq_error
    rw [violation?, here, firstUnfit?_of_lacksActor fit fresh lacks, Option.some_or]
  | unknownNext fit here settled next filled unknown =>
    exact check_of_dangling fit here settled (dangling?_of_unknownNext next filled unknown)
  | unknownThen fit here settled next branch unknown =>
    exact check_of_dangling fit here settled (dangling?_of_unknownThen next branch unknown)
  | unknownElse fit here settled next first branch unknown =>
    exact check_of_dangling fit here settled (dangling?_of_unknownElse next first branch unknown)
  | lastNotEnd fit settled here unfinished =>
    apply check_eq_error
    rw [violation?_of_allFit fit, findSome?_dangling?_of_settled settled, Option.none_or, here,
      unfinished?, List.getLast?_append]
    simp [unfinished]

theorem check_of_wellFormed (h : p.WellFormed) : p.check = .ok () := by
  have hfit : AllFit p.steps := (allFit_iff p.steps).2 ⟨h.distinct, h.performed⟩
  have hlast : unfinished? p.steps = none := by
    unfold unfinished?
    split
    · rename_i last hl
      rw [if_pos (h.ends last hl)]
    · rfl
  rw [check, violation?_of_allFit hfit, findSome?_dangling?_of_settled h.settled, hlast]
  rfl

/-- A process keeps every invariant or has a first violation. -/
theorem wellFormed_or_firstViolation (p : Process) : p.WellFormed ∨ ∃ v, p.FirstViolation v := by
  -- Ids and actors come first for all steps, then the references, then the last step, as
  -- `FirstViolation` has it.
  rcases allFit_or_first_unfit [] p.steps with hfit | ⟨before, s, after, here, hb, hs⟩
  · rcases p.settled_or_first_unsettled p.steps with hset | ⟨before, s, after, here, hb, hs⟩
    · obtain ⟨hd, hp⟩ := (allFit_iff p.steps).1 hfit
      by_cases hlast : ∀ s, p.steps.getLast? = some s → s.kind = .finish
      · exact Or.inl ⟨hd, hp, hset, hlast⟩
      · simp only [Classical.not_forall] at hlast
        obtain ⟨s, hl, hk⟩ := hlast
        obtain ⟨before, he⟩ := List.getLast?_eq_some_iff.1 hl
        exact Or.inr ⟨_, .lastNotEnd hfit hset he hk⟩
    · rcases p.settles_or_first_unknown s with h | ⟨t, hn, hf, hu⟩ | ⟨hn, t, ht, hu⟩ |
        ⟨hn, ht, t, hf, hu⟩
      · exact absurd h hs
      · exact Or.inr ⟨_, .unknownNext hfit here hb hn hf hu⟩
      · exact Or.inr ⟨_, .unknownThen hfit here hb hn ht hu⟩
      · exact Or.inr ⟨_, .unknownElse hfit here hb hn ht hf hu⟩
  · by_cases hfresh : ∀ u ∈ before, u.id ≠ s.id
    · exact Or.inr ⟨_, .missingActor here hb hfresh fun hp => hs ⟨by simpa using hfresh, hp⟩⟩
    · simp only [ne_eq, Classical.not_forall, Classical.not_not] at hfresh
      obtain ⟨u, hu, hid⟩ := hfresh
      exact Or.inr ⟨_, .duplicateId here hb ⟨u, hu, hid⟩⟩

theorem wellFormed_of_check {p : Process} (h : p.check = .ok ()) : p.WellFormed := by
  rcases p.wellFormed_or_firstViolation with hw | ⟨v, hv⟩
  · exact hw
  · rw [check_of_firstViolation hv] at h
    cases h

/-- Accepted are exactly the processes that keep every invariant, and what is reported of another
one is exactly its first violation. -/
theorem check_decides_invariants (p : Process) :
    (p.check = .ok () ↔ p.WellFormed) ∧ ∀ v, p.check = .error v ↔ p.FirstViolation v := by
  refine ⟨⟨fun h => ?_, check_of_wellFormed⟩, fun v => ⟨fun h => ?_, check_of_firstViolation⟩⟩
  · rcases p.wellFormed_or_firstViolation with hw | ⟨v, hv⟩
    · exact hw
    · rw [check_of_firstViolation hv] at h
      cases h
  · rcases p.wellFormed_or_firstViolation with hw | ⟨w, hw⟩
    · rw [check_of_wellFormed hw] at h
      cases h
    · rw [check_of_firstViolation hw] at h
      cases h
      exact hw

end Process

/-- Either ids stay distinct through all the steps or there is a first step that repeats one. -/
theorem nodup_ids_or_first_repeat (done steps : List Step) (distinct : (done.map Step.id).Nodup) :
    ((done ++ steps).map Step.id).Nodup ∨ ∃ before s after, steps = before ++ s :: after ∧
      ((done ++ before).map Step.id).Nodup ∧ ∃ u ∈ done ++ before, u.id = s.id := by
  induction steps generalizing done with
  | nil =>
    left
    simpa using distinct
  | cons s r ih =>
    -- The ids of the steps that are done are distinct, so only the next id can repeat one.
    by_cases hs : ∃ u ∈ done, u.id = s.id
    · exact Or.inr ⟨[], s, r, rfl, by simpa using distinct, by simpa using hs⟩
    · have hnew : ((done ++ [s]).map Step.id).Nodup := by
        rw [List.map_append, List.nodup_append]
        refine ⟨distinct, List.pairwise_singleton _ _, ?_⟩
        rintro id hid id' hid' rfl
        obtain ⟨u, hu, rfl⟩ := List.mem_map.1 hid
        exact hs ⟨u, hu, by simpa using hid'⟩
      rcases ih (done ++ [s]) hnew with hr | ⟨before, t, after, rfl, hb, ht⟩
      · left
        simpa using hr
      · refine Or.inr ⟨s :: before, t, after, rfl, ?_, ?_⟩
        · simpa using hb
        · simpa using ht

/-- Either all tasks have an actor or there is a first one that lacks it. -/
theorem performed_or_first_lacking (steps : List Step) : (∀ s ∈ steps, s.Performed) ∨
    ∃ done u rest, steps = done ++ u :: rest ∧ (∀ v ∈ done, v.Performed) ∧ ¬u.Performed := by
  induction steps with
  | nil => exact Or.inl (by simp)
  | cons s r ih =>
    by_cases hs : s.Performed
    · rcases ih with hr | ⟨done, u, rest, rfl, hd, hu⟩
      · exact Or.inl (List.forall_mem_cons.2 ⟨hs, hr⟩)
      · exact Or.inr ⟨s :: done, u, rest, rfl, List.forall_mem_cons.2 ⟨hs, hd⟩, hu⟩
    · exact Or.inr ⟨[], s, r, rfl, by simp, hs⟩

namespace Process

variable {p : Process}

/-- Of a process that repeats an id the first step that does so is reported, unless a task before it
lacks its actor: then the first such task is. Nothing else that is wrong with the process comes
before these. -/
theorem check_of_repeated_id (h : ¬p.ids.Nodup) :
    ∃ before s after, p.steps = before ++ s :: after ∧ (before.map Step.id).Nodup ∧
      (∃ u ∈ before, u.id = s.id) ∧
      ((∀ u ∈ before, u.Performed) ∧ p.check = .error (.duplicateId s.id) ∨
        ∃ done u rest, before = done ++ u :: rest ∧ (∀ v ∈ done, v.Performed) ∧ ¬u.Performed ∧
          p.check = .error (.missingActor u.id)) := by
  rcases nodup_ids_or_first_repeat [] p.steps List.nodup_nil
    with hn | ⟨before, s, after, here, hb, hs⟩
  · exact absurd hn h
  rw [List.nil_append] at hb hs
  refine ⟨before, s, after, here, hb, hs, ?_⟩
  rcases performed_or_first_lacking before with hp | ⟨done, u, rest, rfl, hd, hu⟩
  · left
    have hfit : AllFit before := (allFit_iff before).2 ⟨hb, hp⟩
    exact ⟨hp, check_of_firstViolation (.duplicateId here hfit hs)⟩
  · right
    -- The ids before the repeated one are distinct, so the id of the task without an actor is new.
    rw [List.map_append, List.map_cons] at hb
    have hfit : AllFit done := (allFit_iff done).2 ⟨(List.nodup_append.1 hb).1, hd⟩
    have hfresh : ∀ v ∈ done, v.id ≠ u.id := by
      intro v hv
      exact (List.nodup_append.1 hb).2.2 v.id (List.mem_map_of_mem hv) u.id List.mem_cons_self
    have hplace : p.steps = done ++ u :: (rest ++ s :: after) := by
      rw [here, List.append_assoc, List.cons_append]
    exact ⟨done, u, rest, rfl, hd, hu, check_of_firstViolation
      (.missingActor hplace hfit hfresh hu)⟩

/-- A task without an actor, and after it an id that is declared twice. -/
def repeatedAfterLacking : Process where
  name := "repeated"
  steps := [{ id := "a", kind := .task }, { id := "b", kind := .finish },
    { id := "b", kind := .finish }]

theorem check_of_repeated_id_lacking :
    ¬repeatedAfterLacking.ids.Nodup ∧
    ∃ before s after, repeatedAfterLacking.steps = before ++ s :: after ∧
      (before.map Step.id).Nodup ∧ (∃ u ∈ before, u.id = s.id) ∧
      ((∀ u ∈ before, u.Performed) ∧ repeatedAfterLacking.check = .error (.duplicateId s.id) ∨
        ∃ done u rest, before = done ++ u :: rest ∧ (∀ v ∈ done, v.Performed) ∧ ¬u.Performed ∧
          repeatedAfterLacking.check = .error (.missingActor u.id)) := by
  have hrepeated : ¬repeatedAfterLacking.ids.Nodup := by decide
  exact ⟨hrepeated, check_of_repeated_id hrepeated⟩

/-- The repeated id is not what is reported where a task before it lacks its actor. -/
theorem not_check_duplicate_first :
    ¬∀ p : Process, ¬p.ids.Nodup → ∃ id, p.check = .error (.duplicateId id) := by
  intro hall
  obtain ⟨id, hid⟩ := hall repeatedAfterLacking (by decide)
  have hactor : repeatedAfterLacking.check = .error (.missingActor "a") := rfl
  rw [hactor] at hid
  cases hid

end Process

end Workflow
