import Workflow.Condition.Evaluate
import Workflow.Proofs.Condition.Reading
import Workflow.Proofs.Table

namespace Workflow.Condition

/-- Puts the value of a binding into a table. Null, arrays and objects have none. -/
def enter (values : Table String Value) (binding : String × Json) : Table String Value :=
  match Value.ofJson? binding.2 with
  | some v => values.insert binding.1 v
  | none => values

def context (vars : Bindings) : Table String Value :=
  vars.foldl enter .empty

/-- The binding entered last counts for its name, unless it binds nothing. -/
theorem get?_enter (values : Table String Value) (binding : String × Json) (name : String) :
    (enter values binding).get? name =
      if name = binding.1 then (Value.ofJson? binding.2).or (values.get? name)
      else values.get? name := by
  unfold enter
  split
  · rename_i v hv
    rw [Table.get?_insert, hv]
    rfl
  · rename_i hv
    rw [hv]
    simp

theorem valueOf?_cons (binding : String × Json) (vars : Bindings) (name : String) :
    valueOf? (binding :: vars) name = if name = binding.1 then Value.ofJson? binding.2
    else valueOf? vars name := by
  obtain ⟨key, value⟩ := binding
  by_cases h : name = key
  · simp [valueOf?, h]
  · have hkey : (name == key) = false := by simpa using h
    simp [valueOf?, List.lookup_cons, h, hkey]

/-- A name has no value if nothing is bound to it that has one. -/
theorem valueOf?_eq_none {vars : Bindings} {name : String}
    (h : ∀ binding ∈ vars, binding.1 = name → Value.ofJson? binding.2 = none) :
    valueOf? vars name = none := by
  induction vars with
  | nil => rfl
  | cons binding vars ih =>
    obtain ⟨hfirst, hrest⟩ := List.forall_mem_cons.1 h
    rw [valueOf?_cons]
    by_cases hname : name = binding.1
    · rw [if_pos hname, hfirst hname.symm]
    · rw [if_neg hname, ih hrest]

theorem valueOf?_append {kept dropped : Bindings} {name : String}
    (h : ∀ binding ∈ dropped, binding.1 = name → Value.ofJson? binding.2 = none) :
    valueOf? (kept ++ dropped) name = valueOf? kept name := by
  induction kept with
  | nil => exact valueOf?_eq_none h
  | cons binding kept ih => rw [List.cons_append, valueOf?_cons, valueOf?_cons, ih]

/-- Where no name is bound twice, the values that were entered are those that are looked up. -/
theorem get?_foldl_enter {vars : Bindings} (nodup : (vars.map Prod.fst).Nodup)
    (values : Table String Value) (name : String) :
    (vars.foldl enter values).get? name = (valueOf? vars name).or (values.get? name) := by
  induction vars generalizing values with
  | nil => rfl
  | cons binding vars ih =>
    obtain ⟨hnew, hrest⟩ := List.nodup_cons.1 nodup
    rw [List.foldl_cons, ih hrest, get?_enter, valueOf?_cons]
    by_cases hname : name = binding.1
    · have hlater : valueOf? vars name = none := valueOf?_eq_none fun other hother heq =>
        absurd (heq.trans hname ▸ List.mem_map_of_mem hother) hnew
      rw [if_pos hname, if_pos hname, hlater, Option.none_or]
    · rw [if_neg hname, if_neg hname]

theorem valueOf?_eq_of_perm {vars order : Bindings} (h : order.Perm vars)
    (nodup : (vars.map Prod.fst).Nodup) (name : String) :
    valueOf? order name = valueOf? vars name := by
  rw [valueOf?, valueOf?, lookup_eq_of_perm h nodup]

/-- In whatever order bindings are entered, the table has the values that are looked up. -/
theorem get?_context {vars order : Bindings} (h : order.Perm vars)
    (nodup : (vars.map Prod.fst).Nodup) (name : String) :
    (context order).get? name = valueOf? vars name := by
  have horder : (order.map Prod.fst).Nodup := (h.map Prod.fst).nodup_iff.2 nodup
  rw [context, get?_foldl_enter horder, Table.get?_empty, Option.or_none,
    valueOf?_eq_of_perm h nodup]

/-- An operator reads a variable only if it is the look-up of its name. -/
theorem Operator.apply_congr {vars vars' : Bindings} {o : Operator}
    (h : ∀ name, o = .lookup name → valueOf? vars name = valueOf? vars' name)
    (values : List Value) :
    o.apply vars values = o.apply vars' values := by
  cases o with
  | lookup name =>
    cases values with
    | nil => rw [apply, apply, h name rfl]
    | cons v values => rfl
  | _ =>
    -- No other operator looks at the variables, however many operands it has.
    rcases values with _ | ⟨a, _ | ⟨b, _ | ⟨c, values⟩⟩⟩ <;> rfl

namespace Expression

mutual

theorem evaluate_congr {vars vars' : Bindings} : ∀ e : Expression,
    (∀ name, .lookup name ∈ e.operators → valueOf? vars name = valueOf? vars' name) →
      e.evaluate vars = e.evaluate vars'
  | node o xs, h => by
    have hxs : evaluateAll vars xs = evaluateAll vars' xs :=
      evaluateAll_congr xs fun name hname => h name (mem_operators_node.2 (Or.inr hname))
    have ho := o.apply_congr fun name hname => h name (mem_operators_node.2 (Or.inl hname.symm))
    simp only [evaluate, hxs, ho]

theorem evaluateAll_congr {vars vars' : Bindings} : ∀ xs : List Expression,
    (∀ name, .lookup name ∈ allOperators xs → valueOf? vars name = valueOf? vars' name) →
      evaluateAll vars xs = evaluateAll vars' xs
  | [], _ => rfl
  | x :: xs, h => by
    have hx := evaluate_congr x fun name hname => h name (mem_allOperators_cons.2 (Or.inl hname))
    have hxs := evaluateAll_congr xs fun name hname =>
      h name (mem_allOperators_cons.2 (Or.inr hname))
    simp only [evaluateAll, hx, hxs]

end

mutual

/-- An expression with an assignment in it has no value. -/
theorem evaluate_ne_ok_of_assign {vars : Bindings} {plain : Bool} : ∀ e : Expression,
    .assign plain ∈ e.operators → ∀ v, e.evaluate vars ≠ .ok v
  | node o xs, h, v, hv => by
    rw [evaluate] at hv
    split at hv
    · rename_i vs hvs
      rcases mem_operators_node.1 h with rfl | hxs
      · rw [Operator.apply] at hv
        cases hv
      · exact evaluateAll_ne_ok_of_assign xs hxs vs hvs
    · cases hv

theorem evaluateAll_ne_ok_of_assign {vars : Bindings} {plain : Bool} : ∀ xs : List Expression,
    .assign plain ∈ allOperators xs → ∀ vs, evaluateAll vars xs ≠ .ok vs
  | [], h, _, _ => notMem_allOperators_nil h
  | x :: xs, h, vs, hvs => by
    rw [evaluateAll] at hvs
    split at hvs
    · cases hvs
    · rename_i earlier hearlier
      split at hvs
      · rename_i v hv
        rcases mem_allOperators_cons.1 h with hx | hxs
        · exact evaluate_ne_ok_of_assign x hx v hv
        · exact evaluateAll_ne_ok_of_assign xs hxs earlier hearlier
      · cases hvs

end

end Expression

theorem evaluate_congr {vars vars' : Bindings} {text : String}
    (h : ∀ ts, tokens text.toList = .ok ts → ∀ name, Token.name name ∈ ts →
      valueOf? vars name = valueOf? vars' name) :
    evaluate vars text = evaluate vars' text := by
  unfold evaluate
  split
  · rename_i e he
    obtain ⟨ts, hts, hofTokens⟩ := Expression.tokens_of_read he
    apply e.evaluate_congr
    intro name hname
    have hread := (Expression.mem_operators_ofTokens (by simp) hofTokens).1 hname
    exact h ts hts name (Token.name_mem_of_lookup_mem hread)
  · rfl

theorem holds_congr {vars vars' : Bindings} {text : String}
    (h : ∀ ts, tokens text.toList = .ok ts → ∀ name, Token.name name ∈ ts →
      valueOf? vars name = valueOf? vars' name) :
    holds vars text = holds vars' text := by
  rw [holds, holds, evaluate_congr h]

/-- A condition with an assignment in it has no value. -/
theorem evaluate_ne_ok_of_assign {text : String} {ts : List Token}
    (hts : tokens text.toList = .ok ts) {plain : Bool} (h : Token.assign plain ∈ ts)
    (vars : Bindings) (v : Value) : evaluate vars text ≠ .ok v := by
  intro hv
  rw [evaluate] at hv
  split at hv
  · rename_i e he
    obtain ⟨us, hus, hofTokens⟩ := Expression.tokens_of_read he
    obtain rfl : ts = us := Except.ok.inj (hts.symm.trans hus)
    have hassign : .assign plain ∈ e.operators :=
      (Expression.mem_operators_ofTokens (by simp) hofTokens).2 (Token.assign_mem_operators h)
    exact e.evaluate_ne_ok_of_assign hassign v hv
  · cases hv

end Workflow.Condition
