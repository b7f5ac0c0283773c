import Workflow.Proofs.Simulation.Walk

namespace Workflow

/-- A JSON value that binds nothing: null, an array or an object. -/
inductive Json.IsUnbinding : Json → Prop
  | null : IsUnbinding .null
  | array (items : List Json) : IsUnbinding (.array items)
  | object (fields : List (String × Json)) : IsUnbinding (.object fields)

theorem Condition.Value.ofJson?_of_unbinding {j : Json} (h : j.IsUnbinding) : ofJson? j = none := by
  cases h <;> rfl

namespace Process

/-- A name stands as a token in the condition of a decision. -/
def Mentions (p : Process) (name : String) : Prop :=
  ∃ s ∈ p.steps, s.kind = .decision ∧ ∃ condition ts, s.condition = some condition ∧
    Condition.tokens condition.toList = .ok ts ∧ .name name ∈ ts

/-- Two sets of bindings give the same value, or none, to every name that a process mentions. -/
def AgreeOnMentioned (p : Process) (vars vars' : Bindings) : Prop :=
  ∀ name, p.Mentions name → Condition.valueOf? vars name = Condition.valueOf? vars' name

variable {p : Process} {vars vars' : Bindings}

theorem holds_eq_of_agree (h : p.AgreeOnMentioned vars vars') {s : Step} (hs : s ∈ p.steps)
    {condition : String} (hasks : s.Asks condition) :
    Condition.holds vars condition = Condition.holds vars' condition := by
  apply Condition.holds_congr
  intro ts hts name hname
  exact h name ⟨s, hs, hasks.decision, condition, ts, hasks.given, hts, hname⟩

theorem run_eq_of_agree (h : p.AgreeOnMentioned vars vars') {s : Step} (hs : s ∈ p.steps) :
    s.transition.run vars = s.transition.run vars' := by
  by_cases hasks : ∃ condition, s.Asks condition
  · obtain ⟨condition, hcondition⟩ := hasks
    rw [Step.run_of_asks hcondition, Step.run_of_asks hcondition, holds_eq_of_agree h hs hcondition]
  · obtain ⟨next, hnext⟩ := Step.exists_goesTo_of_silent (not_exists.1 hasks)
    rw [Step.run_of_goesTo (hnext vars), Step.run_of_goesTo (hnext vars')]

theorem simulate_eq_of_agree (h : p.AgreeOnMentioned vars vars') :
    p.simulate vars = p.simulate vars' := by
  have hruns : ∀ t ∈ p.transitions, t.run vars = t.run vars' := by
    intro t ht
    obtain ⟨s, hs, rfl⟩ := List.mem_map.1 ht
    exact run_eq_of_agree h hs
  rw [simulate, simulate, runTransitions_congr hruns]

theorem AgreeOnMentioned.of_perm (h : vars.Perm vars') (nodup : (vars'.map Prod.fst).Nodup) :
    p.AgreeOnMentioned vars vars' :=
  fun name _ => Condition.valueOf?_eq_of_perm h nodup name

/-- Bindings of names that are not mentioned, and bindings to nothing, can be left out. -/
theorem AgreeOnMentioned.append {kept dropped : Bindings}
    (idle : ∀ binding ∈ dropped, ¬p.Mentions binding.1 ∨ binding.2.IsUnbinding) :
    p.AgreeOnMentioned (kept ++ dropped) kept := by
  intro name hname
  apply Condition.valueOf?_append
  rintro binding hbinding rfl
  rcases idle binding hbinding with hother | hunbinding
  · exact absurd hname hother
  · exact Condition.Value.ofJson?_of_unbinding hunbinding

/-- A simulation reads nothing but the values of the names that stand as tokens in conditions of
decisions. Two sets of bindings that agree on these lead to the same result, be it the pairs or the
failure. So where no name is bound twice the order of the bindings makes no difference, the table of
their values can be filled in any order, and bindings of other names, or to null, arrays and
objects, can be left out. -/
theorem simulate_reads_mentioned (p : Process) :
    (∀ vars vars', p.AgreeOnMentioned vars vars' → p.simulate vars = p.simulate vars') ∧
    ∀ vars : Bindings, (vars.map Prod.fst).Nodup →
      (∀ order, order.Perm vars → p.simulate order = p.simulate vars ∧
        ∀ name, (Condition.context order).get? name = Condition.valueOf? vars name) ∧
      ∀ kept dropped, vars.Perm (kept ++ dropped) →
        (∀ binding ∈ dropped, ¬p.Mentions binding.1 ∨ binding.2.IsUnbinding) →
        p.simulate vars = p.simulate kept := by
  refine ⟨fun vars vars' => simulate_eq_of_agree, ?_⟩
  intro vars nodup
  refine ⟨?_, ?_⟩
  · intro order hperm
    exact ⟨simulate_eq_of_agree (.of_perm hperm nodup), Condition.get?_context hperm nodup⟩
  · intro kept dropped hperm idle
    have hnodup : ((kept ++ dropped).map Prod.fst).Nodup := (hperm.map Prod.fst).nodup_iff.1 nodup
    rw [simulate_eq_of_agree (.of_perm hperm hnodup), simulate_eq_of_agree (.append idle)]

theorem eq_amount_of_mentions {name : String} (h : amountProcess.Mentions name) :
    name = "amount" := by
  obtain ⟨s, hs, hdecision, condition, ts, hgiven, hts, hname⟩ := h
  have hreview : Condition.tokens "amount > 500".toList =
      .ok [.name "amount", .binary .gt, .int 500] := by rfl
  have hraise : Condition.tokens "amount = 0".toList =
      .ok [.name "amount", .assign true, .int 0] := by rfl
  simp only [amountProcess, List.mem_cons, List.not_mem_nil, or_false] at hs
  rcases hs with rfl | rfl | rfl
  · obtain rfl := Option.some.inj hgiven
    obtain rfl := Except.ok.inj (hreview.symm.trans hts)
    simpa using hname
  · obtain rfl := Option.some.inj hgiven
    obtain rfl := Except.ok.inj (hraise.symm.trans hts)
    simpa using hname
  · cases hdecision

theorem simulate_reads_mentioned_amount :
    let vars : Bindings :=
      [("note", .string "x"), ("amount", .number (.int 700)), ("list", .array [])]
    (vars.map Prod.fst).Nodup ∧
    amountProcess.simulate vars = amountProcess.simulate [("amount", .number (.int 700))] ∧
    amountProcess.simulate vars.reverse = amountProcess.simulate vars ∧
    (Condition.context vars.reverse).get? "note" = Condition.valueOf? vars "note" ∧
    amountProcess.AgreeOnMentioned [] [("amount", .null)] ∧
    amountProcess.simulate [] = amountProcess.simulate [("amount", .null)] := by
  intro vars
  have hnodup : (vars.map Prod.fst).Nodup := by decide
  have hnull : amountProcess.AgreeOnMentioned [] [("amount", .null)] := by
    intro name hname
    rw [eq_amount_of_mentions hname]
    rfl
  obtain ⟨hagree, hfree⟩ := simulate_reads_mentioned amountProcess
  obtain ⟨horder, hdrop⟩ := hfree vars hnodup
  obtain ⟨hreverse, hcontext⟩ := horder vars.reverse (List.reverse_perm vars)
  refine ⟨hnodup, ?_, hreverse, hcontext "note", hnull, hagree _ _ hnull⟩
  refine hdrop [("amount", .number (.int 700))] [("note", .string "x"), ("list", .array [])]
    (.swap _ _ _) ?_
  intro binding hbinding
  simp only [List.mem_cons, List.not_mem_nil, or_false] at hbinding
  rcases hbinding with rfl | rfl
  · exact Or.inl fun hnote => absurd (eq_amount_of_mentions hnote) (by decide)
  · exact Or.inr (.array [])

end Process

end Workflow
