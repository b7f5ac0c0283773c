import Workflow.Condition.Expression
import Mathlib.Tactic.Tauto
/-!
What an expression keeps of its tokens. Reading moves operators about: it puts them under others,
takes operands away from one and gives them to another, and closes what was open. But it loses none
and makes none up, except for groups: in the expression stand exactly the operators that its tokens
stand for.
-/

namespace Workflow.Condition

theorem exists_of_map_eq_ok {α β : Type} {f : α → β} {x : Except Fault α} {b : β}
    (h : x.map f = .ok b) :
    ∃ a, x = .ok a ∧ f a = b := by
  cases x with
  | error fault => cases h
  | ok a => exact ⟨a, rfl, Except.ok.inj h⟩

namespace Expression

mutual

def operators : Expression → List Operator
  | node o xs => o :: allOperators xs

def allOperators : List Expression → List Operator
  | [] => []
  | x :: xs => x.operators ++ allOperators xs

end

theorem mem_operators_node {o p : Operator} {xs : List Expression} :
    o ∈ (node p xs).operators ↔ o = p ∨ o ∈ allOperators xs := by
  rw [operators, List.mem_cons]

theorem mem_allOperators_cons {o : Operator} {x : Expression} {xs : List Expression} :
    o ∈ allOperators (x :: xs) ↔ o ∈ x.operators ∨ o ∈ allOperators xs := by
  rw [allOperators, List.mem_append]

theorem notMem_allOperators_nil {o : Operator} : o ∉ allOperators [] := by
  rw [allOperators]
  exact List.not_mem_nil

theorem mem_operators_push {o : Operator} {e x : Expression} :
    o ∈ (e.push x).operators ↔ o ∈ x.operators ∨ o ∈ e.operators := by
  obtain ⟨p, xs⟩ := e
  rw [push, mem_operators_node, mem_allOperators_cons, mem_operators_node]
  exact or_left_comm

theorem mem_operators_emptyGroup {o : Operator} : o ∈ emptyGroup.operators ↔ o = .group := by
  simp [emptyGroup, mem_operators_node, notMem_allOperators_nil]

/-- Putting an expression under another one keeps the operators of both. -/
theorem mem_operators_rotate {o p : Operator} {last x r : Expression} {earlier : List Expression}
    (h : rotate p last earlier x = .ok r) :
    o ∈ r.operators ↔ o ∈ (node p (last :: earlier)).operators ∨ o ∈ x.operators := by
  have hr : node p (x.push last :: earlier) = r := by
    rw [rotate] at h
    split at h
    · cases h
    · split at h
      · cases h
      · split at h
        · cases h
        · exact Except.ok.inj h
  rw [← hr, mem_operators_node, mem_operators_node, mem_allOperators_cons, mem_allOperators_cons,
    mem_operators_push]
  tauto

/-- An inserted expression stands behind the operands, takes the place of the last one, or goes into
it. -/
theorem insert_cases {p : Operator} {xs : List Expression} {isRoot : Bool} {x r : Expression}
    (h : (node p xs).insert isRoot x = .ok r) :
    r = node p (x :: xs) ∨ ∃ last earlier, xs = last :: earlier ∧
      (rotate p last earlier x = .ok r ∨
        ∃ inner, last.insert false x = .ok inner ∧ r = node p (inner :: earlier)) := by
  rw [insert.eq_def] at h
  dsimp only at h
  -- Three branches succeed, and all others refuse.
  split at h
  · cases h
  · split at h
    · cases h
    · split at h
      · split at h
        · cases h
        · rename_i last earlier hadmits
          refine Or.inr ⟨last, earlier, rfl, ?_⟩
          split at h
          · split at h
            · rename_i inner hinner
              exact Or.inr ⟨inner, hinner, (Except.ok.inj h).symm⟩
            · cases h
          · exact Or.inl h
      · exact Or.inl (Except.ok.inj h).symm

/-- However deep an expression is inserted, no operator is lost. -/
theorem mem_operators_insert {o : Operator} : ∀ {e x r : Expression} {isRoot : Bool},
    e.insert isRoot x = .ok r → (o ∈ r.operators ↔ o ∈ e.operators ∨ o ∈ x.operators)
  | node p xs, x, r, isRoot, h => by
    rcases insert_cases h with rfl | ⟨last, earlier, rfl, hrotate | ⟨inner, hinner, rfl⟩⟩
    · rw [mem_operators_node, mem_operators_node, mem_allOperators_cons]
      tauto
    · exact mem_operators_rotate hrotate
    · have hlast : o ∈ inner.operators ↔ o ∈ last.operators ∨ o ∈ x.operators :=
        mem_operators_insert hinner
      rw [mem_operators_node, mem_operators_node, mem_allOperators_cons, mem_allOperators_cons,
        hlast]
      tauto

end Expression

namespace Open

open Expression

/-- Closing sequences leaves a group as the innermost open expression. -/
theorem mem_closeSequences {o : Operator} {x : Expression} {rest s : Open}
    (h : closeSequences x rest = .ok s) :
    ∃ y ys, s = y :: ys ∧ y.operator.isGroup = true ∧
      (o ∈ allOperators s ↔ o ∈ allOperators (x :: rest)) := by
  induction rest generalizing x with
  | nil =>
    rw [closeSequences] at h
    split at h
    · cases h
    · rename_i hgroup
      split at h
      · cases h
      · obtain rfl := Except.ok.inj h
        exact ⟨x, [], rfl, by simpa using hgroup, Iff.rfl⟩
  | cons outer rest ih =>
    rw [closeSequences] at h
    split at h
    · -- A sequence goes into the expression around it, with its operators; a group is where this
      -- ends.
      obtain ⟨y, ys, rfl, hgroup, hmem⟩ := ih h
      refine ⟨y, ys, rfl, hgroup, hmem.trans ?_⟩
      rw [mem_allOperators_cons, mem_allOperators_cons, mem_allOperators_cons, mem_operators_push,
        or_assoc]
    · rename_i hgroup
      split at h
      · cases h
      · obtain rfl := Except.ok.inj h
        exact ⟨x, outer :: rest, rfl, by simpa using hgroup, Iff.rfl⟩

theorem mem_closeDownTo {o : Operator} {strength : Nat} {x y : Expression} {rest ys : Open}
    (h : closeDownTo strength x rest = .ok (y, ys)) :
    o ∈ allOperators (y :: ys) ↔ o ∈ allOperators (x :: rest) := by
  induction rest generalizing x with
  | nil => cases h
  | cons outer rest ih =>
    rw [closeDownTo] at h
    split at h
    · rw [ih h, mem_allOperators_cons, mem_allOperators_cons, mem_allOperators_cons,
        mem_operators_push, or_assoc]
    · obtain ⟨rfl, rfl⟩ := Prod.mk.inj (Except.ok.inj h)
      exact Iff.rfl

theorem sameSequence_iff {p q : Operator} (h : p.sameSequence q = true) : p = q := by
  cases p <;> cases q <;> first | rfl | cases h

/-- A sequence that starts or goes on adds its operator and groups that are still empty. -/
theorem mem_addSequence {o p : Operator} (hgroup : o ≠ .group) {x : Expression} {rest s : Open}
    (h : addSequence p x rest = .ok s) :
    o ∈ allOperators s ↔ o = p ∨ o ∈ allOperators (x :: rest) := by
  -- In each branch the operators are those of the parts that are put together, and `p`.
  unfold addSequence at h
  split at h
  · rename_i hsame
    obtain rfl := Except.ok.inj h
    have hop : o = p → o ∈ x.operators := by
      rintro rfl
      obtain ⟨q, xs⟩ := x
      exact mem_operators_node.2 (Or.inl (sameSequence_iff hsame).symm)
    rw [mem_allOperators_cons, mem_operators_push, mem_operators_emptyGroup, mem_allOperators_cons]
    tauto
  · split at h
    · obtain rfl := Except.ok.inj h
      simp only [mem_allOperators_cons, mem_operators_node, mem_operators_emptyGroup,
        notMem_allOperators_nil]
      tauto
    · split at h
      · split at h
        · obtain rfl := Except.ok.inj h
          simp only [mem_allOperators_cons, mem_operators_node, mem_operators_emptyGroup,
            notMem_allOperators_nil]
          tauto
        · cases h
      · split at h
        · cases h
        · rename_i y ys hclosed
          obtain rfl := Except.ok.inj h
          rw [← mem_closeDownTo hclosed]
          simp only [mem_allOperators_cons, mem_operators_node, notMem_allOperators_nil]
          tauto

theorem mem_addNode {o : Operator} {e x : Expression} {rest s : Open}
    (h : addNode e x rest = .ok s) :
    o ∈ allOperators s ↔ o ∈ e.operators ∨ o ∈ allOperators (x :: rest) := by
  unfold addNode at h
  split at h
  · split at h
    · obtain ⟨inner, hinner, rfl⟩ := exists_of_map_eq_ok h
      simp only [mem_allOperators_cons, mem_operators_node, mem_operators_insert hinner]
      tauto
    · cases h
  · obtain ⟨inner, hinner, rfl⟩ := exists_of_map_eq_ok h
    simp only [mem_allOperators_cons, mem_operators_insert hinner]
    tauto

/-- What is added is an operator without operands, or a group. -/
theorem mem_add {o : Operator} (hgroup : o ≠ .group) {e : Expression} {s s' : Open}
    (he : e.operands = [] ∨ e.operator.isGroup = true) (h : add e s = .ok s') :
    o ∈ allOperators s' ↔ o ∈ e.operators ∨ o ∈ allOperators s := by
  cases s with
  | nil => cases h
  | cons x rest =>
    rw [add] at h
    split at h
    · rename_i hsequence
      obtain ⟨p, xs⟩ := e
      obtain rfl : xs = [] := by
        rcases he with he | he
        · exact he
        · cases p <;> cases hsequence <;> cases he
      rw [mem_addSequence hgroup h, mem_operators_node]
      simp only [notMem_allOperators_nil, or_false, operator]
    · exact mem_addNode h

theorem mem_closeParen {o : Operator} (hgroup : o ≠ .group) {s s' : Open}
    (h : closeParen s = .ok s') :
    o ∈ allOperators s' ↔ o ∈ allOperators s := by
  unfold closeParen at h
  split at h
  · rename_i x y rest
    split at h
    · cases h
    · rename_i closed others hclosed
      obtain ⟨z, zs, heq, hz, hmem⟩ := mem_closeSequences (o := o) hclosed
      obtain ⟨rfl, rfl⟩ := List.cons.inj heq
      rw [mem_add hgroup (Or.inr hz) h, ← hmem, mem_allOperators_cons]
    · cases h
  · cases h

/-- A token adds the operator that it stands for, if it stands for one. -/
theorem mem_take {o : Operator} (hgroup : o ≠ .group) {operandBefore : Bool}
    {next : Option Token} {t : Token} {s s' : Open} (h : take operandBefore next t s = .ok s') :
    o ∈ allOperators s' ↔ t.operator? operandBefore next = some o ∨ o ∈ allOperators s := by
  unfold take at h
  split at h
  · obtain rfl := Except.ok.inj h
    rw [mem_allOperators_cons, mem_operators_emptyGroup, Token.operator?]
    simp [hgroup]
  · rw [mem_closeParen hgroup h, Token.operator?]
    simp
  · split at h
    · rename_i p hp
      rw [mem_add hgroup (Or.inl rfl) h, mem_operators_node, hp]
      simp [notMem_allOperators_nil, eq_comm]
    · rename_i hp
      obtain rfl := Except.ok.inj h
      simp [hp]

end Open

/-- The operators that tokens stand for, each in its place. -/
def Token.operators (operandBefore : Bool) : List Token → List Operator
  | [] => []
  | t :: r => (t.operator? operandBefore r.head?).toList ++ Token.operators t.endsOperand r

namespace Open

open Expression

/-- But for groups, what is open after some tokens has their operators and those that were open
before. -/
theorem mem_takeAll {o : Operator} (hgroup : o ≠ .group) {operandBefore : Bool} {ts : List Token}
    {s s' : Open} (h : takeAll operandBefore ts s = .ok s') :
    o ∈ allOperators s' ↔ o ∈ Token.operators operandBefore ts ∨ o ∈ allOperators s := by
  induction ts generalizing operandBefore s with
  | nil =>
    obtain rfl := Except.ok.inj h
    simp [Token.operators]
  | cons t r ih =>
    rw [takeAll] at h
    split at h
    · rename_i u hu
      rw [ih h, mem_take hgroup hu, Token.operators, List.mem_append, Option.mem_toList,
        or_left_comm, or_assoc]
    · cases h

theorem mem_finish {o : Operator} {s : Open} {e : Expression} (h : s.finish = .ok e) :
    o ∈ e.operators ↔ o ∈ allOperators s := by
  unfold finish at h
  split at h
  · cases h
  · split at h
    · cases h
    · rename_i whole hclosed
      obtain rfl := Except.ok.inj h
      obtain ⟨-, -, -, -, hmem⟩ := mem_closeSequences (o := o) hclosed
      rw [← hmem, mem_allOperators_cons]
      simp [notMem_allOperators_nil]
    · cases h

end Open

namespace Expression

/-- In an expression stand the operators that its tokens stand for, and groups. -/
theorem mem_operators_ofTokens {o : Operator} (hgroup : o ≠ .group) {ts : List Token}
    {e : Expression} (h : ofTokens ts = .ok e) :
    o ∈ e.operators ↔ o ∈ Token.operators false ts := by
  rw [ofTokens] at h
  split at h
  · rename_i s hs
    rw [Open.mem_finish h, Open.mem_takeAll hgroup hs, mem_allOperators_cons,
      mem_operators_emptyGroup]
    simp [hgroup, notMem_allOperators_nil]
  · cases h

theorem tokens_of_read {s : List Char} {e : Expression} (h : read s = .ok e) :
    ∃ ts, tokens s = .ok ts ∧ ofTokens ts = .ok e := by
  rw [read] at h
  split at h
  · rename_i ts hts
    exact ⟨ts, hts, h⟩
  · cases h

end Expression

namespace Token

theorem eq_of_nameRole_eq_lookup {n name : String} {next : Option Token}
    (h : nameRole n next = .lookup name) :
    n = name := by
  unfold nameRole at h
  split at h
  · cases h
  · split at h
    · cases h
    · exact Operator.lookup.inj h
  · exact Operator.lookup.inj h

/-- Only a name stands for its look-up. -/
theorem eq_name_of_operator? {t : Token} {operandBefore : Bool} {next : Option Token}
    {name : String} (h : t.operator? operandBefore next = some (.lookup name)) :
    t = .name name := by
  cases t with
  | name n => rw [eq_of_nameRole_eq_lookup (Option.some.inj h)]
  | minus => cases operandBefore <;> cases h
  | _ => cases h

/-- A variable is looked up only if its name stands as a token. -/
theorem name_mem_of_lookup_mem {name : String} {operandBefore : Bool} {ts : List Token}
    (h : .lookup name ∈ Token.operators operandBefore ts) : Token.name name ∈ ts := by
  induction ts generalizing operandBefore with
  | nil => cases h
  | cons t r ih =>
    rw [Token.operators, List.mem_append, Option.mem_toList] at h
    rcases h with h | h
    · rw [eq_name_of_operator? h]
      exact List.mem_cons_self
    · exact List.mem_cons_of_mem t (ih h)

/-- An assignment stands for itself, wherever it is. -/
theorem assign_mem_operators {plain : Bool} {operandBefore : Bool} {ts : List Token}
    (h : Token.assign plain ∈ ts) : .assign plain ∈ Token.operators operandBefore ts := by
  induction ts generalizing operandBefore with
  | nil => cases h
  | cons t r ih =>
    rw [Token.operators, List.mem_append]
    rcases List.mem_cons.1 h with rfl | h
    · exact Or.inl (Option.mem_toList.2 rfl)
    · exact Or.inr (ih h)

end Token

end Workflow.Condition
