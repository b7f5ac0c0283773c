import Workflow.Proofs.Document.Field
import Workflow.Proofs.Tree

namespace Workflow

namespace Tree

def HasOptional (entries : List (Tree × Tree)) (name : String) : Prop :=
  ∀ v, field? name entries = some v → v = .null ∨ ∃ s, v.Spells s

def HasText (entries : List (Tree × Tree)) (name : String) (texts : String → Prop) : Prop :=
  ∃ v s, field? name entries = some v ∧ v.Spells s ∧ texts s

/-- The fields of a step that may be absent, in the order of reading. -/
def optionalFields : List String :=
  ["then", "else", "actor", "next", "condition"]

inductive IsStep : Tree → Prop
  | mk {entries : List (Tree × Tree)} {raw : Tree} (tagged : Tagged (.mapping entries) raw)
      (id : HasText entries "id" fun _ => True)
      (type : HasText entries "type" (· ∈ ["task", "decision", "end"]))
      (others : ∀ name ∈ optionalFields, HasOptional entries name) : IsStep raw

inductive IsDocument : Tree → Prop
  | mk {top entries : List (Tree × Tree)} {process root : Tree}
      (taggedTop : Tagged (.mapping top) root)
      (here : field? "process" top = some process) (tagged : Tagged (.mapping entries) process)
      (name : HasOptional entries "name")
      (steps : ∀ v, field? "steps" entries = some v →
        v = .null ∨ ∃ items, v = .sequence items ∧ ∀ raw ∈ items, IsStep raw) : IsDocument root

def fieldFaults (entries : List (Tree × Tree)) (name : String) : List Malformed :=
  match field? name entries with
  | none => []
  | some .null => []
  | some value => if value.scalarText?.isSome then [] else [.nonScalarField name]

def fieldText? (entries : List (Tree × Tree)) (name : String) : Option String :=
  (field? name entries).bind scalarText?

def identityFaults (entries : List (Tree × Tree)) : List Malformed :=
  match fieldText? entries "id", fieldText? entries "type" with
  | some id, some kind => if kind ∈ ["task", "decision", "end"] then []
  else [.unknownStepType id kind]
  | _, _ => [.missingIdOrType]

def stepFaults (raw : Tree) : List Malformed :=
  match raw.entries? with
  | none => [.missingIdOrType]
  | some entries =>
    fieldFaults entries "id" ++ (fieldFaults entries "type" ++
      (identityFaults entries ++ optionalFields.flatMap (fieldFaults entries)))

def stepsFaults (entries : List (Tree × Tree)) : List Malformed :=
  match field? "steps" entries with
  | none => []
  | some .null => []
  | some (.sequence items) => items.flatMap stepFaults
  | some _ => [.stepsNotSequence]

/-- All that is wrong with a document, in the order of reading. -/
def faults (root : Tree) : List Malformed :=
  match root.entries? with
  | none => [.rootNotMapping]
  | some top =>
    match field? "process" top with
    | none => [.missingProcess]
    | some process =>
      match process.entries? with
      | none => [.processNotMapping]
      | some entries => fieldFaults entries "name" ++ stepsFaults entries

/-- Two documents with the same name, and with the same steps up to the element `bad`. -/
inductive SameUpTo (bad : Tree) : Tree → Tree → Prop
  | mk {root other process process' : Tree} {top top' entries entries' : List (Tree × Tree)}
      {before after after' : List Tree} (taggedTop : Tagged (.mapping top) root)
      (taggedTop' : Tagged (.mapping top') other) (here : field? "process" top = some process)
      (here' : field? "process" top' = some process') (tagged : Tagged (.mapping entries) process)
      (tagged' : Tagged (.mapping entries') process')
      (name : field? "name" entries' = field? "name" entries)
      (steps : field? "steps" entries = some (.sequence (before ++ bad :: after)))
      (steps' : field? "steps" entries' = some (.sequence (before ++ bad :: after'))) :
      SameUpTo bad root other

end Tree

/-- A result that reports the first of some faults, if there are any. -/
def Reports {α : Type} (faults : List Malformed) (x : Except Malformed α) : Prop :=
  match faults with
  | [] => ∃ a, x = .ok a
  | first :: _ => x = .error first

section reports

variable {α β : Type} {faults : List Malformed} {x : Except Malformed α}

theorem Reports.ok_iff (h : Reports faults x) : (∃ a, x = .ok a) ↔ faults = [] := by
  cases faults with
  | nil => exact iff_of_true h rfl
  | cons first others =>
    rw [show x = .error first from h]
    simp

theorem Reports.error_iff (h : Reports faults x) {e : Malformed} :
    x = .error e ↔ faults.head? = some e := by
  cases faults with
  | nil =>
    obtain ⟨a, rfl⟩ := h
    simp
  | cons first others =>
    rw [show x = .error first from h]
    simp

/-- Of two readings one after another, the second is reached only where the first has no fault. -/
theorem Reports.bind (h : Reports faults x) {others : List Malformed} {f : α → Except Malformed β}
    (hf : ∀ a, x = .ok a → Reports others (f a)) : Reports (faults ++ others) (x >>= f) := by
  cases faults with
  | nil =>
    obtain ⟨a, rfl⟩ := h
    exact hf a rfl
  | cons first rest =>
    rw [show x = .error first from h]
    rfl

theorem Reports.pure (a : α) : Reports [] (Except.ok a : Except Malformed α) :=
  ⟨a, rfl⟩

end reports

namespace Tree

theorem reports_textField (entries : List (Tree × Tree)) (name : String) :
    Reports (fieldFaults entries name) (textField entries name) := by
  rw [fieldFaults, textField]
  cases field? name entries with
  | none => exact .pure none
  | some value =>
    cases value with
    | null => exact .pure none
    | string s => exact .pure (some s)
    | number n => exact .pure (some n.text)
    | bool b => exact .pure (some (if b then "true" else "false"))
    | sequence items => rfl
    | mapping es => rfl
    | tagged tag content => rfl

/-- A field that is read has its text, and null has none. -/
theorem fieldText?_of_textField {entries : List (Tree × Tree)} {name : String}
    {text : Option String} (h : textField entries name = .ok text) :
    fieldText? entries name = text := by
  rw [textField] at h
  rw [fieldText?]
  split at h
  · rename_i hnone
    rw [hnone]
    exact Except.ok.inj h
  · rename_i hnull
    rw [hnull]
    exact Except.ok.inj h
  · rename_i value _ hvalue
    rw [hvalue, Option.bind_some]
    split at h
    · rename_i htext
      rw [htext]
      exact Except.ok.inj h
    · cases h

theorem reports_toStepFields (entries : List (Tree × Tree)) (id : String) (kind : StepKind) :
    Reports (optionalFields.flatMap (fieldFaults entries)) (toStepFields entries id kind) := by
  simp only [optionalFields, List.flatMap_cons, List.flatMap_nil]
  refine (reports_textField entries "then").bind fun onTrue _ => ?_
  refine (reports_textField entries "else").bind fun onFalse _ => ?_
  refine (reports_textField entries "actor").bind fun actor _ => ?_
  refine (reports_textField entries "next").bind fun next _ => ?_
  exact (reports_textField entries "condition").bind fun condition _ => .pure _

theorem ofName?_eq_none_iff {name : String} :
    StepKind.ofName? name = none ↔ name ∉ ["task", "decision", "end"] := by
  rw [StepKind.ofName?.eq_def]
  split <;> simp_all

/-- A step is read, or its first fault is reported. -/
theorem reports_toStep (raw : Tree) : Reports raw.stepFaults raw.toStep := by
  rw [stepFaults, toStep]
  cases raw.entries? with
  | none => rfl
  | some entries =>
    -- The readings follow one another in the order of the faults, and the identity is checked
    -- between them.
    refine (reports_textField entries "id").bind fun id hid => ?_
    refine (reports_textField entries "type").bind fun kind hkind => ?_
    rw [identityFaults, fieldText?_of_textField hid, fieldText?_of_textField hkind]
    cases id with
    | none => rfl
    | some id =>
      cases kind with
      | none => rfl
      | some name =>
        dsimp only
        cases hname : StepKind.ofName? name with
        | none =>
          rw [if_neg (ofName?_eq_none_iff.1 hname)]
          rfl
        | some kind =>
          have hknown : name ∈ ["task", "decision", "end"] := Classical.not_not.1 fun hunknown => by
            simp [ofName?_eq_none_iff.2 hunknown] at hname
          rw [if_pos hknown, List.nil_append]
          exact reports_toStepFields entries id kind

/-- The faults of the first element that has any come first. -/
theorem reports_toSteps (items : List Tree) :
    Reports (items.flatMap stepFaults) (toSteps items) := by
  induction items with
  | nil => exact .pure []
  | cons raw rest ih =>
    rw [List.flatMap_cons, toSteps]
    refine (reports_toStep raw).bind fun step _ => ?_
    rw [← List.append_nil (rest.flatMap stepFaults)]
    exact ih.bind fun steps _ => .pure _

theorem reports_stepsField (entries : List (Tree × Tree)) :
    Reports (stepsFaults entries) (stepsField entries) := by
  rw [stepsFaults, stepsField]
  cases field? "steps" entries with
  | none => exact .pure []
  | some value =>
    cases value with
    | null => exact .pure []
    | sequence items => exact reports_toSteps items
    | _ => rfl

/-- The first fault of a document is reported. -/
theorem reports_toProcess (root : Tree) : Reports root.faults root.toProcess := by
  rw [faults, toProcess]
  cases root.entries? with
  | none => rfl
  | some top =>
    dsimp only
    cases field? "process" top with
    | none => rfl
    | some process =>
      dsimp only
      cases process.entries? with
      | none => rfl
      | some entries =>
        dsimp only
        refine (reports_textField entries "name").bind fun name _ => ?_
        rw [← List.append_nil (stepsFaults entries)]
        exact (reports_stepsField entries).bind fun steps _ => .pure _

theorem fieldFaults_eq_nil_iff {entries : List (Tree × Tree)} {name : String} :
    fieldFaults entries name = [] ↔ HasOptional entries name := by
  rw [fieldFaults, HasOptional]
  cases field? name entries with
  | none => simp
  | some v =>
    have hspells : v.scalarText?.isSome = true ↔ ∃ s, v.Spells s := by
      simp only [Option.isSome_iff_exists, scalarText?_eq_some_iff]
    cases v with
    | null => simp
    | _ => simp [← hspells, Option.isSome_iff_ne_none]

theorem fieldText?_eq_some_iff {entries : List (Tree × Tree)} {name s : String} :
    fieldText? entries name = some s ↔ HasText entries name (· = s) := by
  simp only [fieldText?, Option.bind_eq_some_iff, scalarText?_eq_some_iff, HasText]
  constructor
  · rintro ⟨v, hv, hspells⟩
    exact ⟨v, s, hv, hspells, rfl⟩
  · rintro ⟨v, s, hv, hspells, rfl⟩
    exact ⟨v, hv, hspells⟩

theorem identityFaults_eq_nil_iff {entries : List (Tree × Tree)} : identityFaults entries = [] ↔
    HasText entries "id" (fun _ => True) ∧ HasText entries "type"
    (· ∈ ["task", "decision", "end"]) := by
  have htext {name : String} {texts : String → Prop} :
      HasText entries name texts ↔ ∃ s, fieldText? entries name = some s ∧ texts s := by
    simp only [fieldText?_eq_some_iff, HasText]
    constructor
    · rintro ⟨v, s, hv, hspells, hs⟩
      exact ⟨s, ⟨v, s, hv, hspells, rfl⟩, hs⟩
    · rintro ⟨s, ⟨v, s', hv, hspells, rfl⟩, hs⟩
      exact ⟨v, s', hv, hspells, hs⟩
  rw [htext, htext, identityFaults]
  cases fieldText? entries "id" with
  | none => simp
  | some id =>
    cases fieldText? entries "type" with
    | none => simp
    | some kind =>
      simp only [Option.some.injEq, exists_eq_left', true_and, ite_eq_left_iff, reduceCtorEq,
        imp_false, Classical.not_not]

/-- A scalar that is there is no fault of a field that may be absent. -/
theorem HasText.hasOptional {entries : List (Tree × Tree)} {name : String} {texts : String → Prop}
    (h : HasText entries name texts) : HasOptional entries name := by
  obtain ⟨v, s, hv, hspells, -⟩ := h
  intro w hw
  rw [hv] at hw
  obtain rfl := Option.some.inj hw
  exact Or.inr ⟨s, hspells⟩

/-- An element without faults is a step. -/
theorem stepFaults_eq_nil_iff {raw : Tree} : raw.stepFaults = [] ↔ IsStep raw := by
  constructor
  · intro h
    rw [stepFaults] at h
    split at h
    · simp at h
    · rename_i entries hentries
      simp only [List.append_eq_nil_iff, List.flatMap_eq_nil_iff, fieldFaults_eq_nil_iff,
        identityFaults_eq_nil_iff] at h
      obtain ⟨-, -, ⟨hid, htype⟩, hothers⟩ := h
      exact .mk (entries?_eq_some_iff.1 hentries) hid htype hothers
  · rintro ⟨tagged, id, type, others⟩
    rw [stepFaults, entries?_eq_some_iff.2 tagged]
    simp only [List.append_eq_nil_iff, List.flatMap_eq_nil_iff, fieldFaults_eq_nil_iff,
      identityFaults_eq_nil_iff]
    exact ⟨id.hasOptional, type.hasOptional, ⟨id, type⟩, others⟩

theorem stepsFaults_eq_nil_iff {entries : List (Tree × Tree)} :
    stepsFaults entries = [] ↔ ∀ v, field? "steps" entries = some v →
      v = .null ∨ ∃ items, v = .sequence items ∧ ∀ raw ∈ items, IsStep raw := by
  rw [stepsFaults]
  cases field? "steps" entries with
  | none => simp
  | some v => cases v <;> simp [stepFaults_eq_nil_iff]

/-- Only documents are without faults. -/
theorem faults_eq_nil_iff {root : Tree} : root.faults = [] ↔ IsDocument root := by
  constructor
  · intro h
    -- Where one of the three look-ups fails there is a fault; behind them only the fields can have
    -- one.
    rw [faults] at h
    split at h
    · simp at h
    · rename_i top htop
      split at h
      · simp at h
      · rename_i process hprocess
        split at h
        · simp at h
        · rename_i entries hentries
          rw [List.append_eq_nil_iff, fieldFaults_eq_nil_iff, stepsFaults_eq_nil_iff] at h
          exact .mk (entries?_eq_some_iff.1 htop) hprocess (entries?_eq_some_iff.1 hentries) h.1 h.2
  · rintro ⟨taggedTop, here, tagged, name, steps⟩
    rw [faults, entries?_eq_some_iff.2 taggedTop]
    simp only [here, entries?_eq_some_iff.2 tagged]
    rw [List.append_eq_nil_iff, fieldFaults_eq_nil_iff, stepsFaults_eq_nil_iff]
    exact ⟨name, steps⟩

/-- Up to an element with a fault, the faults are the same. -/
theorem SameUpTo.exists_front {bad root other : Tree} (h : SameUpTo bad root other)
    (faulty : ¬IsStep bad) :
    ∃ first front rest rest', root.faults = first :: (front ++ rest) ∧ other.faults =
      first :: (front ++ rest') := by
  -- The faults up to those of `bad` are common to both, and `bad` has one, so that the first is
  -- among them.
  have hbad : bad.stepFaults ≠ [] := fun hnil => faulty (stepFaults_eq_nil_iff.1 hnil)
  have hfaults {root process : Tree} {top entries : List (Tree × Tree)} {before after : List Tree}
      (taggedTop : Tagged (.mapping top) root) (here : field? "process" top = some process)
      (tagged : Tagged (.mapping entries) process)
      (steps : field? "steps" entries = some (.sequence (before ++ bad :: after))) : root.faults =
        fieldFaults entries "name" ++ before.flatMap stepFaults ++ bad.stepFaults ++
        after.flatMap stepFaults := by
    rw [faults, entries?_eq_some_iff.2 taggedTop]
    simp only [here, entries?_eq_some_iff.2 tagged, stepsFaults, steps, List.flatMap_append,
      List.flatMap_cons, List.append_assoc]
  cases h with
  | @mk _ _ _ _ entries entries' before _ _ taggedTop taggedTop' here here' tagged tagged' name
      steps steps' =>
    have hname : fieldFaults entries' "name" = fieldFaults entries "name" := by
      rw [fieldFaults, fieldFaults, name]
    obtain ⟨first, front, hfront⟩ := List.exists_cons_of_ne_nil
      (List.append_ne_nil_of_right_ne_nil (fieldFaults entries "name" ++ before.flatMap stepFaults)
        hbad)
    have hroot := hfaults taggedTop here tagged steps
    have hother := hfaults taggedTop' here' tagged' steps'
    rw [hfront] at hroot
    rw [hname, hfront] at hother
    exact ⟨first, front, _, _, hroot, hother⟩

/-- Reading accepts the documents of the right shape, and blames the first fault of any other. What
stands behind the element that is at fault does not change it. -/
theorem toProcess_decides_shape (root : Tree) :
    ((∃ p, root.toProcess = .ok p) ↔ IsDocument root) ∧
      (∀ e, root.toProcess = .error e ↔ root.faults.head? = some e) ∧
      ∀ bad other, ¬IsStep bad → SameUpTo bad root other → other.toProcess = root.toProcess := by
  have hroot := reports_toProcess root
  refine ⟨hroot.ok_iff.trans faults_eq_nil_iff, fun e => hroot.error_iff, ?_⟩
  intro bad other faulty same
  have hother := reports_toProcess other
  obtain ⟨first, front, rest, rest', hfaults, hfaults'⟩ := same.exists_front faulty
  have hfirst : root.toProcess = .error first := hroot.error_iff.2 (by rw [hfaults]; rfl)
  have hfirst' : other.toProcess = .error first := hother.error_iff.2 (by rw [hfaults']; rfl)
  rw [hfirst, hfirst']

/-- The type of the second step is unknown, which counts before its actor and before all that stands
behind it. -/
theorem toProcess_decides_shape_unknown :
    let good : Tree := .mapping [(.string "id", .number (.int 1)), (.string "type", .string "end")]
    let bad : Tree :=
      .tagged "s" (.mapping [(.string "actor", .sequence []), (.string "id", .bool true),
      (.string "type", .string "loop")])
    let root (behind : List Tree) : Tree :=
      .mapping [(.string "process",
        .mapping [(.string "steps", .sequence (good :: bad :: behind))])]
    (root [.null]).toProcess = .error (.unknownStepType "true" "loop") ∧ ¬IsStep bad ∧
      (root []).toProcess = (root [.null]).toProcess ∧ ¬IsDocument (root []) := by
  intro good bad root
  have hfaults : (root [.null]).faults.head? = some (.unknownStepType "true" "loop") := by
    decide +kernel
  have hread : (root [.null]).toProcess = .error (.unknownStepType "true" "loop") :=
    ((toProcess_decides_shape (root [.null])).2.1 _).2 hfaults
  have hbad : ¬IsStep bad := fun h => absurd (stepFaults_eq_nil_iff.2 h) (by decide +kernel)
  have hsteps (behind : List Tree) : field? "steps"
      [(.string "steps", .sequence (good :: bad :: behind))] =
      some (.sequence ([good] ++ bad :: behind)) := rfl
  have hsame : SameUpTo bad (root [.null]) (root []) :=
    .mk .bare .bare rfl rfl .bare .bare rfl (hsteps [.null]) (hsteps [])
  have hcut : (root []).toProcess = (root [.null]).toProcess :=
    (toProcess_decides_shape (root [.null])).2.2 bad (root []) hbad hsame
  refine ⟨hread, hbad, hcut, fun hdocument => ?_⟩
  obtain ⟨p, hp⟩ := (toProcess_decides_shape (root [])).1.2 hdocument
  rw [hcut, hread] at hp
  cases hp

end Tree

end Workflow
