import Workflow.Document.Shape

namespace Workflow.Tree

inductive Tagged (value : Tree) : Tree → Prop
  | bare : Tagged value value
  | under {tag : String} {content : Tree} (inside : Tagged value content) :
      Tagged value (.tagged tag content)

/-- A scalar with this text. Null has no text. -/
inductive Spells : Tree → String → Prop
  | string (s : String) : Spells (.string s) s
  | number (n : Number) : Spells (.number n) n.text
  | bool (b : Bool) : Spells (.bool b) (if b then "true" else "false")

/-- Tags around a mapping do not hide its entries. -/
theorem entries?_eq_some_iff {t : Tree} {entries : List (Tree × Tree)} :
    t.entries? = some entries ↔ Tagged (.mapping entries) t := by
  constructor
  · intro h
    fun_induction entries? t with
    | case1 es =>
      obtain rfl := Option.some.inj h
      exact .bare
    | case2 tag content ih => exact .under (ih h)
    | case3 => simp at h
  · intro h
    induction h with
    | bare => rfl
    | under _ ih => exact ih

/-- A scalar has the text that it spells, whatever tags stand around it. -/
theorem scalarText?_eq_some_iff {t : Tree} {s : String} : t.scalarText? = some s ↔ t.Spells s := by
  constructor
  · intro h
    cases t with
    | string text =>
      obtain rfl := Option.some.inj h
      exact .string text
    | number n =>
      obtain rfl := Option.some.inj h
      exact .number n
    | bool b =>
      obtain rfl := Option.some.inj h
      exact .bool b
    | null => simp [scalarText?] at h
    | sequence items => simp [scalarText?] at h
    | mapping entries => simp [scalarText?] at h
    | tagged tag content => simp [scalarText?] at h
  · intro h
    cases h <;> rfl

theorem field?_cons_self (name : String) (v : Tree) (rest : List (Tree × Tree)) :
    field? name ((.string name, v) :: rest) = some v := by
  rw [field?, if_pos rfl]

theorem field?_cons_of_ne {name : String} {e : Tree × Tree} (h : e.1 ≠ .string name)
    (rest : List (Tree × Tree)) :
    field? name (e :: rest) = field? name rest := by
  obtain ⟨key, value⟩ := e
  cases key with
  | string s =>
    have hs : s ≠ name := fun hs => h (congrArg Tree.string hs)
    rw [field?, if_neg hs]
  | _ => rfl

/-- Where no entry has the name as its key, nothing is found. -/
theorem field?_eq_none {name : String} {entries : List (Tree × Tree)}
    (h : ∀ e ∈ entries, e.1 ≠ .string name) :
    field? name entries = none := by
  induction entries with
  | nil => rfl
  | cons e rest ih =>
    rw [field?_cons_of_ne (h e List.mem_cons_self), ih fun e he => h e (List.mem_cons_of_mem _ he)]

/-- The only entry with the name as its key is found, wherever it stands. -/
theorem field?_eq_some {name : String} {v : Tree} {entries : List (Tree × Tree)}
    (mem : (.string name, v) ∈ entries) (only : ∀ e ∈ entries, e.1 = .string name → e.2 = v) :
    field? name entries = some v := by
  induction entries with
  | nil => simp at mem
  | cons e rest ih =>
    by_cases hkey : e.1 = .string name
    · have hvalue := only e List.mem_cons_self hkey
      obtain ⟨key, value⟩ := e
      dsimp only at hkey hvalue
      rw [hkey, hvalue, field?_cons_self]
    · have hrest : (.string name, v) ∈ rest := by
        rcases List.mem_cons.1 mem with rfl | hrest
        · exact absurd rfl hkey
        · exact hrest
      rw [field?_cons_of_ne hkey, ih hrest fun e he => only e (List.mem_cons_of_mem _ he)]

end Workflow.Tree
