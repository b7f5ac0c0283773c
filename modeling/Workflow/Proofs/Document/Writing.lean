import Workflow.Proofs.Document.Field
import Workflow.Proofs.Tree
import Mathlib.Data.List.Forall2

namespace Workflow

open Workflow.Tree

/-- Ways to write the field of that name in a mapping: a scalar with its text, or, if it has none,
null or nothing. -/
inductive WritesField (name : String) : Option String → List (Tree × Tree) → Prop
  | text {t : Tree} {s : String} (spells : t.Spells s) :
      WritesField name (some s) [(.string name, t)]
  | null : WritesField name none [(.string name, .null)]
  | absent : WritesField name none []

inductive WritesFields : List (String × Option String) → List (Tree × Tree) → Prop
  | nil : WritesFields [] []
  | cons {name : String} {text : Option String} {fields : List (String × Option String)}
      {part written : List (Tree × Tree)} (first : WritesField name text part)
      (others : WritesFields fields written) :
      WritesFields ((name, text) :: fields) (part ++ written)

/-- The entries are those written, in any order, and any others whose keys are none of the names. -/
def Arranged (names : List String) (written entries : List (Tree × Tree)) : Prop :=
  ∃ others : List (Tree × Tree), (∀ e ∈ others, ∀ name ∈ names, e.1 ≠ .string name) ∧
    entries.Perm (written ++ others)

def Step.fields (s : Step) : List (String × Option String) :=
  [("id", some s.id), ("type", some s.kind.name), ("actor", s.actor), ("next", s.next),
    ("condition", s.condition), ("then", s.branches.onTrue), ("else", s.branches.onFalse)]

inductive Step.WrittenAs (s : Step) : Tree → Prop
  | mk {written entries : List (Tree × Tree)} {raw : Tree} (fields : WritesFields s.fields written)
      (arranged : Arranged (s.fields.map Prod.fst) written entries)
      (tagged : Tagged (.mapping entries) raw) :
      s.WrittenAs raw

/-- Ways to write the name of a process. An empty one can be left out. -/
inductive WritesName : String → List (Tree × Tree) → Prop
  | text {name : String} {written : List (Tree × Tree)}
      (field : WritesField "name" (some name) written) :
      WritesName name written
  | empty {written : List (Tree × Tree)} (field : WritesField "name" none written) :
      WritesName "" written

/-- Ways to write the steps of a process. If there are none, they can be left out. -/
inductive WritesSteps : List Step → List (Tree × Tree) → Prop
  | items {steps : List Step} {items : List Tree} (each : List.Forall₂ Step.WrittenAs steps items) :
      WritesSteps steps [(.string "steps", .sequence items)]
  | null : WritesSteps [] [(.string "steps", .null)]
  | absent : WritesSteps [] []

inductive Process.WrittenAs (p : Process) : Tree → Prop
  | mk {name steps entries top : List (Tree × Tree)} {process root : Tree}
      (writesName : WritesName p.name name)
      (writesSteps : WritesSteps p.steps steps)
      (arranged : Arranged ["name", "steps"] (name ++ steps) entries)
      (tagged : Tagged (.mapping entries) process)
      (arrangedTop : Arranged ["process"] [(.string "process", process)] top)
      (taggedTop : Tagged (.mapping top) root) : p.WrittenAs root

def Step.toTree (s : Step) : Tree :=
  .mapping (s.fields.flatMap fun field => field.2.toList.map fun text =>
    (.string field.1, .string text))

def Process.toTree (p : Process) : Tree :=
  .mapping [(.string "process", .mapping [(.string "name", .string p.name),
    (.string "steps", .sequence (p.steps.map Step.toTree))])]

section fields

variable {name : String} {text : Option String} {names : List String}
  {part written entries : List (Tree × Tree)}

theorem WritesField.key_eq (h : WritesField name text part) : ∀ e ∈ part, e.1 = .string name := by
  cases h <;> simp

theorem Arranged.mem (h : Arranged names written entries) {e : Tree × Tree} (he : e ∈ written) :
    e ∈ entries := by
  obtain ⟨others, -, hperm⟩ := h
  exact hperm.mem_iff.2 (List.mem_append_left _ he)

theorem Arranged.mem_written (h : Arranged names written entries) {e : Tree × Tree}
    (he : e ∈ entries) (hname : name ∈ names) (hkey : e.1 = .string name) : e ∈ written := by
  obtain ⟨others, hothers, hperm⟩ := h
  rcases List.mem_append.1 (hperm.mem_iff.1 he) with hwritten | hother
  · exact hwritten
  · exact absurd hkey (hothers e hother name hname)

/-- An entry that is written once is found, whatever stands around it. -/
theorem Arranged.finds (h : Arranged names written entries) (hname : name ∈ names) {v : Tree}
    (mem : (.string name, v) ∈ written) (only : ∀ e ∈ written, e.1 = .string name →
      e ∈ [(.string name, v)]) :
    field? name entries = some v := by
  apply field?_eq_some (h.mem mem)
  intro e he hkey
  rw [List.mem_singleton.1 (only e (h.mem_written he hname hkey) hkey)]

theorem Arranged.finds_none (h : Arranged names written entries) (hname : name ∈ names)
    (none : ∀ e ∈ written, e.1 ≠ .string name) : field? name entries = .none := by
  apply field?_eq_none
  intro e he hkey
  exact none e (h.mem_written he hname hkey) hkey

/-- A field is found with its text among entries in any order. -/
theorem WritesField.textField_eq (h : WritesField name text part)
    (arranged : Arranged names written entries) (hname : name ∈ names) (hpart : part ⊆ written)
    (only : ∀ e ∈ written, e.1 = .string name → e ∈ part) :
    textField entries name = .ok text := by
  cases h with
  | @text t s spells =>
    have htext := scalarText?_eq_some_iff.2 spells
    rw [textField, arranged.finds hname (hpart List.mem_cons_self) only]
    cases spells <;> simp only [htext]
  | null => rw [textField, arranged.finds hname (hpart List.mem_cons_self) only]
  | absent =>
    have hnone : ∀ e ∈ written, e.1 ≠ .string name := fun e he hkey => by simpa using only e he hkey
    rw [textField, arranged.finds_none hname hnone]

theorem WritesFields.exists_name {fields : List (String × Option String)}
    (h : WritesFields fields written) :
    ∀ e ∈ written, ∃ name ∈ fields.map Prod.fst, e.1 = .string name := by
  induction h with
  | nil => simp
  | cons first _ ih =>
    intro e he
    rcases List.mem_append.1 he with he | he
    · exact ⟨_, List.mem_cons_self, first.key_eq e he⟩
    · obtain ⟨name, hname, hkey⟩ := ih e he
      exact ⟨name, List.mem_cons_of_mem _ hname, hkey⟩

/-- Where the names are distinct, what is written for one of the fields holds all entries with its
name. -/
theorem WritesFields.exists_part {fields : List (String × Option String)}
    (h : WritesFields fields written) (distinct : (fields.map Prod.fst).Nodup)
    (mem : (name, text) ∈ fields) :
    ∃ part, WritesField name text part ∧ part ⊆ written ∧ ∀ e ∈ written, e.1 = .string name →
      e ∈ part := by
  -- The names are distinct, so that no other field than the one looked for writes an entry with the
  -- name.
  induction h with
  | nil => simp at mem
  | @cons first firstText fields part written hfirst others ih =>
    rw [List.map_cons, List.nodup_cons] at distinct
    rcases List.mem_cons.1 mem with heq | mem
    · obtain ⟨rfl, rfl⟩ := Prod.mk.inj heq
      refine ⟨part, hfirst, List.subset_append_left _ _, fun e he hkey => ?_⟩
      rcases List.mem_append.1 he with he | he
      · exact he
      · obtain ⟨other, hother, hkey'⟩ := others.exists_name e he
        rw [hkey, Tree.string.injEq] at hkey'
        exact absurd (hkey' ▸ hother) distinct.1
    · obtain ⟨part', hfield, hsub, honly⟩ := ih distinct.2 mem
      refine ⟨part', hfield, List.Subset.trans hsub (List.subset_append_right _ _),
        fun e he hkey => ?_⟩
      rcases List.mem_append.1 he with he | he
      · have hkey' := hfirst.key_eq e he
        rw [hkey, Tree.string.injEq] at hkey'
        exact absurd (List.mem_map_of_mem mem) (hkey' ▸ distinct.1)
      · exact honly e he hkey

/-- Every field of several is read back. -/
theorem WritesFields.textField_eq {fields : List (String × Option String)}
    (h : WritesFields fields written) (distinct : (fields.map Prod.fst).Nodup)
    (arranged : Arranged (fields.map Prod.fst) written entries) (mem : (name, text) ∈ fields) :
    textField entries name = .ok text := by
  obtain ⟨part, hfield, hsub, honly⟩ := h.exists_part distinct mem
  exact hfield.textField_eq arranged (List.mem_map_of_mem mem) hsub honly

end fields

/-- A step is read back from each way to write it. -/
theorem Step.toStep_of_writtenAs {s : Step} {raw : Tree} (h : s.WrittenAs raw) :
    raw.toStep = .ok s := by
  obtain ⟨fields, arranged, tagged⟩ := h
  have hread (name : String) (text : Option String) (mem : (name, text) ∈ s.fields) :=
    fields.textField_eq (by simp [Step.fields]) arranged mem
  have hid := hread "id" (some s.id) (by simp [Step.fields])
  have htype := hread "type" (some s.kind.name) (by simp [Step.fields])
  have hactor := hread "actor" s.actor (by simp [Step.fields])
  have hnext := hread "next" s.next (by simp [Step.fields])
  have hcondition := hread "condition" s.condition (by simp [Step.fields])
  have hthen := hread "then" s.branches.onTrue (by simp [Step.fields])
  have helse := hread "else" s.branches.onFalse (by simp [Step.fields])
  rw [toStep, entries?_eq_some_iff.2 tagged]
  simp only [hid, htype, bind, Except.bind, StepKind.ofName?_name, toStepFields, BranchLabel.name,
    hthen, helse, hactor, hnext, hcondition]

theorem toSteps_of_writtenAs {steps : List Step} {items : List Tree}
    (h : List.Forall₂ Step.WrittenAs steps items) :
    toSteps items = .ok steps := by
  induction h with
  | nil => rfl
  | cons first _ ih =>
    rw [toSteps, Step.toStep_of_writtenAs first, ih]
    rfl

theorem WritesSteps.key_eq {steps : List Step} {written : List (Tree × Tree)}
    (h : WritesSteps steps written) :
    ∀ e ∈ written, e.1 = .string "steps" := by
  cases h <;> simp

theorem WritesName.key_eq {name : String} {written : List (Tree × Tree)}
    (h : WritesName name written) :
    ∀ e ∈ written, e.1 = .string "name" := by
  cases h with
  | text field => exact field.key_eq
  | empty field => exact field.key_eq

theorem WritesSteps.stepsField_eq {steps : List Step} {name written entries : List (Tree × Tree)}
    (h : WritesSteps steps written)
    (arranged : Arranged ["name", "steps"] (name ++ written) entries)
    (hname : ∀ e ∈ name, e.1 = .string "name") : stepsField entries = .ok steps := by
  -- The entry of the name has another key, so it is not in the way.
  have honly : ∀ e ∈ name ++ written, e.1 = .string "steps" → e ∈ written := by
    intro e he hkey
    rcases List.mem_append.1 he with he | he
    · exact absurd (hkey.symm.trans (hname e he)) (by simp)
    · exact he
  have hsteps : "steps" ∈ ["name", "steps"] := by simp
  cases h with
  | items each =>
    rw [stepsField, arranged.finds hsteps (List.mem_append_right _ List.mem_cons_self) honly]
    exact toSteps_of_writtenAs each
  | null =>
    rw [stepsField, arranged.finds hsteps (List.mem_append_right _ List.mem_cons_self) honly]
  | absent =>
    have hnone : ∀ e ∈ name ++ [], e.1 ≠ .string "steps" :=
      fun e he hkey => by simpa using honly e he hkey
    rw [stepsField, arranged.finds_none hsteps hnone]

theorem WritesName.textField_eq {name : String} {written steps entries : List (Tree × Tree)}
    (h : WritesName name written) (arranged : Arranged ["name", "steps"] (written ++ steps) entries)
    (hsteps : ∀ e ∈ steps, e.1 = .string "steps") :
    ∃ text, textField entries "name" = .ok text ∧ text.getD "" = name := by
  have honly : ∀ e ∈ written ++ steps, e.1 = .string "name" → e ∈ written := by
    intro e he hkey
    rcases List.mem_append.1 he with he | he
    · exact he
    · exact absurd (hkey.symm.trans (hsteps e he)) (by simp)
  cases h with
  | text field =>
    exact ⟨_, field.textField_eq arranged List.mem_cons_self (List.subset_append_left _ _) honly,
      rfl⟩
  | empty field =>
    exact ⟨_, field.textField_eq arranged List.mem_cons_self (List.subset_append_left _ _) honly,
      rfl⟩

/-- Reading undoes writing. -/
theorem Process.WrittenAs.toProcess_eq {p : Process} {root : Tree} (h : p.WrittenAs root) :
    root.toProcess = .ok p := by
  cases h with
  | @mk name steps entries top process root writesName writesSteps arranged tagged arrangedTop
      taggedTop =>
    obtain ⟨text, htext, hname⟩ := writesName.textField_eq arranged writesSteps.key_eq
    have hsteps := writesSteps.stepsField_eq arranged writesName.key_eq
    have hprocess : field? "process" top = some process :=
      arrangedTop.finds List.mem_cons_self List.mem_cons_self fun e he _ => he
    rw [toProcess, entries?_eq_some_iff.2 taggedTop]
    simp only [hprocess, entries?_eq_some_iff.2 tagged, htext, hsteps, bind, Except.bind, hname]

theorem writesFields_texts (fields : List (String × Option String)) :
    WritesFields fields
      (fields.flatMap fun field => field.2.toList.map fun text =>
        (.string field.1, .string text)) := by
  induction fields with
  | nil => exact .nil
  | cons field fields ih =>
    obtain ⟨name, text⟩ := field
    cases text with
    | none => exact .cons .absent ih
    | some s => exact .cons (.text (.string s)) ih

theorem arranged_self (names : List String) (written : List (Tree × Tree)) :
    Arranged names written written :=
  ⟨[], by simp, by simp⟩

theorem Step.writtenAs_toTree (s : Step) : s.WrittenAs s.toTree :=
  .mk (writesFields_texts s.fields) (arranged_self _ _) .bare

theorem Process.writtenAs_toTree (p : Process) : p.WrittenAs p.toTree := by
  have heach : List.Forall₂ Step.WrittenAs p.steps (p.steps.map Step.toTree) := by
    rw [List.forall₂_map_right_iff]
    exact List.forall₂_same.2 fun s _ => s.writtenAs_toTree
  exact .mk (.text (.text (.string p.name))) (.items heach) (arranged_self _ _)
    .bare (arranged_self _ _) .bare

/-- Reading a value tree undoes writing a process as one, in whatever order and under whatever tags
it is written, with other entries beside, with absent fields as null or left out, and with numbers
and truth values for texts. -/
theorem Process.toProcess_toTree (p : Process) :
    p.WrittenAs p.toTree ∧ p.toTree.toProcess = .ok p ∧ ∀ root, p.WrittenAs root →
      root.toProcess = .ok p :=
  ⟨p.writtenAs_toTree, p.writtenAs_toTree.toProcess_eq, fun _ h => h.toProcess_eq⟩

/-- Tags, other entries, a number and a truth value for texts, an absent field as null, and no
name. -/
theorem Process.toProcess_toTree_disguised :
    let p : Process :=
      ⟨"", [⟨"1", .task, some "true", some "2", none, {}⟩, ⟨"2", .finish, none, none, none, {}⟩]⟩
    let root : Tree := .tagged "doc" (.mapping [(.string "note", .sequence []), (.string "process",
      .tagged "of" (.mapping [(.number (.int 7), .string "x"), (.string "steps", .sequence [
        .mapping [(.string "actor", .bool true), (.string "next", .number (.int 2)),
          (.string "type", .string "task"),
          (.string "label", .null), (.string "id", .number (.int 1)), (.string "condition", .null)],
        .mapping [(.string "type", .string "end"), (.string "id", .string "2")]])]))])
    p.WrittenAs root ∧ root.toProcess = .ok p := by
  intro p root
  have htask : Step.WrittenAs ⟨"1", .task, some "true", some "2", none, {}⟩
      (.mapping [(.string "actor", .bool true), (.string "next", .number (.int 2)),
        (.string "type", .string "task"),
        (.string "label", .null), (.string "id", .number (.int 1)),
        (.string "condition", .null)]) :=
    .mk (.cons (.text (.number (.int 1)))
      (.cons (.text (.string "task")) (.cons (.text (.bool true))
      (.cons (.text (.number (.int 2))) (.cons .null (.cons .absent (.cons .absent .nil)))))))
      ⟨[(.string "label", .null)], by decide, by decide⟩ .bare
  have hend : Step.WrittenAs ⟨"2", .finish, none, none, none, {}⟩
      (.mapping [(.string "type", .string "end"), (.string "id", .string "2")]) :=
    .mk (.cons (.text (.string "2"))
      (.cons (.text (.string "end")) (.cons .absent (.cons .absent (.cons .absent
      (.cons .absent (.cons .absent .nil))))))) ⟨[], by decide, by decide⟩ .bare
  have hwritten : p.WrittenAs root :=
    .mk (.empty .absent) (.items (.cons htask (.cons hend .nil)))
      ⟨[(.number (.int 7), .string "x")], by decide, List.perm_append_comm⟩ (.under .bare)
      ⟨[(.string "note", .sequence [])], by decide, List.perm_append_comm⟩ (.under .bare)
  exact ⟨hwritten, p.toProcess_toTree.2.2 root hwritten⟩

end Workflow
