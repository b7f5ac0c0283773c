import Workflow.Process.Json
import Workflow.Proofs.Json.RoundTrip
import Workflow.Proofs.Table
import Mathlib.Data.List.Forall2
import Mathlib.Data.List.Permutation

namespace Workflow

open Workflow.Json

/-- Ways to encode a field whose text may be missing. -/
inductive EncodesText (name : String) : Option String → List (String × Json) → Prop
  | text (s : String) : EncodesText name (some s) [(name, .string s)]
  | null : EncodesText name none [(name, .null)]
  | absent : EncodesText name none []

def Branches.fields (b : Branches) : List (String × Json) :=
  b.toList.map fun (label, target) => (label.name, .string target)

inductive EncodesBranches : Branches → List (String × Json) → Prop
  | object {b : Branches} {fields : List (String × Json)} (arranged : fields.Perm b.fields) :
    EncodesBranches b [("branches", .object fields)]
  | absent : EncodesBranches {} []

/-- The fields with one of the names are the known ones, in any order; any others may stand between
them. -/
def Shows (names : List String) (known fields : List (String × Json)) : Prop :=
  (fields.filter (·.1 ∈ names)).Perm known

def Step.fieldNames : List String :=
  ["id", "type", "actor", "next", "condition", "branches"]

inductive Step.EncodesFields (s : Step) : List (String × Json) → Prop
  | mk {actor next condition branches : List (String × Json)}
      (encodesActor : EncodesText "actor" s.actor actor)
      (encodesNext : EncodesText "next" s.next next)
      (encodesCondition : EncodesText "condition" s.condition condition)
      (encodesBranches : EncodesBranches s.branches branches) :
      s.EncodesFields ([("id", .string s.id), ("type", .string s.kind.name)] ++ actor ++ next ++
        condition ++ branches)

inductive Step.EncodedAs (s : Step) : Json → Prop
  | mk {known fields : List (String × Json)} (encodes : s.EncodesFields known)
      (shows : Shows Step.fieldNames known fields) : s.EncodedAs (.object fields)

inductive Process.EncodedAs (p : Process) : Json → Prop
  | mk {items : List Json} {fields : List (String × Json)}
      (steps : List.Forall₂ Step.EncodedAs p.steps items)
      (shows : Shows ["name", "steps"] [("name", .string p.name), ("steps", .array items)] fields) :
      p.EncodedAs (.object fields)

section fields

variable {names : List String} {known fields : List (String × Json)} {name other : String}
  {text : Option String}
  {b : Branches}

theorem lookup_filter_names (hname : name ∈ names) (fields : List (String × Json)) :
    (fields.filter (·.1 ∈ names)).lookup name = fields.lookup name := by
  induction fields with
  | nil => rfl
  | cons field rest ih =>
    obtain ⟨key, value⟩ := field
    by_cases hkey : name = key
    · subst hkey
      simp [hname]
    · have hne : (name == key) = false := by simpa using hkey
      by_cases hmem : key ∈ names <;> simp [hmem, List.lookup_cons, hne, ih]

/-- A known field is found among all fields as among the known ones. -/
theorem Shows.lookup_eq (h : Shows names known fields) (distinct : (known.map Prod.fst).Nodup)
    (hname : name ∈ names) : fields.lookup name = known.lookup name := by
  rw [← lookup_filter_names hname fields]
  exact lookup_eq_of_perm h distinct name

theorem shows_self (h : known.map Prod.fst ⊆ names) : Shows names known known := by
  rw [Shows, List.filter_eq_self.2]
  intro field hfield
  simpa using h (List.mem_map_of_mem hfield)

theorem EncodesText.sublist (h : EncodesText name text known) :
    (known.map Prod.fst).Sublist [name] := by
  cases h <;> simp

theorem EncodesText.lookup_of_ne (h : EncodesText name text known) (hne : other ≠ name) :
    known.lookup other = none := by
  have hbeq : (other == name) = false := by simpa using hne
  cases h <;> simp [List.lookup_cons, hbeq]

theorem EncodesText.optionalText?_eq (h : EncodesText name text known) :
    ((known.lookup name).getD .null).optionalText? = some text := by
  cases h <;> simp [optionalText?]

theorem encodesText_optionalField (name : String) (text : Option String) :
    EncodesText name text (optionalField name text) := by
  cases text with
  | none => exact .absent
  | some s => exact .text s

/-- Branches are restored from their fields in either order. -/
theorem ofFields?_eq (h : fields.Perm b.fields) : Branches.ofFields? fields = some b := by
  obtain ⟨onTrue, onFalse⟩ := b
  cases onTrue <;> cases onFalse
  case none.none =>
    obtain rfl : fields = [] := h.eq_nil
    rfl
  case none.some target =>
    obtain rfl : fields = [("else", .string target)] := List.perm_singleton.1 h
    rfl
  case some.none target =>
    obtain rfl : fields = [("then", .string target)] := List.perm_singleton.1 h
    rfl
  case some.some first second =>
    have hpair : fields.Perm [("then", .string first), ("else", .string second)] := h
    rcases List.perm_pair.1 hpair with rfl | rfl <;> rfl

theorem EncodesBranches.sublist (h : EncodesBranches b known) :
    (known.map Prod.fst).Sublist ["branches"] := by
  cases h <;> simp

theorem EncodesBranches.lookup_of_ne (h : EncodesBranches b known) (hne : other ≠ "branches") :
    known.lookup other = none := by
  have hbeq : (other == "branches") = false := by simpa using hne
  cases h <;> simp [List.lookup_cons, hbeq]

theorem EncodesBranches.toBranches?_eq (h : EncodesBranches b known) :
    ((known.lookup "branches").getD (.object [])).toBranches? = some b := by
  cases h with
  | object arranged => simpa [toBranches?] using ofFields?_eq arranged
  | absent => rfl

end fields

namespace Step

variable {s : Step} {known : List (String × Json)}

/-- The names of the fields are some of the names of a step, in their order. -/
theorem EncodesFields.sublist (h : s.EncodesFields known) :
    (known.map Prod.fst).Sublist fieldNames := by
  obtain ⟨hactor, hnext, hcondition, hbranches⟩ := h
  simp only [List.map_append]
  exact ((((List.Sublist.refl ["id", "type"]).append hactor.sublist).append hnext.sublist).append
    hcondition.sublist).append hbranches.sublist

theorem EncodesFields.distinct (h : s.EncodesFields known) : (known.map Prod.fst).Nodup :=
  (by decide : fieldNames.Nodup).sublist h.sublist

/-- What the fields answer to a look-up of each name, for the step to be decoded. -/
structure Found (s : Step) (fields : List (String × Json)) : Prop where
  id : fields.lookup "id" = some (.string s.id)
  kind : fields.lookup "type" = some (.string s.kind.name)
  actor : ((fields.lookup "actor").getD .null).optionalText? = some s.actor
  next : ((fields.lookup "next").getD .null).optionalText? = some s.next
  condition : ((fields.lookup "condition").getD .null).optionalText? = some s.condition
  branches : ((fields.lookup "branches").getD (.object [])).toBranches? = some s.branches

theorem Found.congr {fields : List (String × Json)} (h : s.Found known)
    (hlookup : ∀ name ∈ fieldNames, fields.lookup name = known.lookup name) : s.Found fields where
  id := by rw [hlookup "id" (by decide), h.id]
  kind := by rw [hlookup "type" (by decide), h.kind]
  actor := by rw [hlookup "actor" (by decide), h.actor]
  next := by rw [hlookup "next" (by decide), h.next]
  condition := by rw [hlookup "condition" (by decide), h.condition]
  branches := by rw [hlookup "branches" (by decide), h.branches]

theorem Found.toStep?_eq {fields : List (String × Json)} (h : s.Found fields) :
    (Json.object fields).toStep? = some s := by
  simp [Json.toStep?, Json.record?, h.id, h.kind, h.actor, h.next, h.condition, h.branches,
    Json.text?, Json.toStepKind?, StepKind.ofName?_name]

/-- Each part of the fields is silent on the names of the others. -/
theorem EncodesFields.found (h : s.EncodesFields known) : s.Found known := by
  obtain ⟨hactor, hnext, hcondition, hbranches⟩ := h
  constructor
  · rfl
  · rfl
  · simp [List.lookup_append, List.lookup_cons, hnext.lookup_of_ne, hcondition.lookup_of_ne,
      hbranches.lookup_of_ne, hactor.optionalText?_eq]
  · simp [List.lookup_append, List.lookup_cons, hactor.lookup_of_ne, hcondition.lookup_of_ne,
      hbranches.lookup_of_ne, hnext.optionalText?_eq]
  · simp [List.lookup_append, List.lookup_cons, hactor.lookup_of_ne, hnext.lookup_of_ne,
      hbranches.lookup_of_ne, hcondition.optionalText?_eq]
  · simp [List.lookup_append, List.lookup_cons, hactor.lookup_of_ne, hnext.lookup_of_ne,
      hcondition.lookup_of_ne, hbranches.toBranches?_eq]

/-- Whatever stands between the fields of a step, the step is decoded. -/
theorem EncodedAs.toStep?_eq {j : Json} (h : s.EncodedAs j) : j.toStep? = some s := by
  obtain ⟨hencodes, hshows⟩ := h
  exact (hencodes.found.congr fun name hname => hshows.lookup_eq hencodes.distinct hname).toStep?_eq

/-- The fields that are written for a step. -/
theorem exists_toJson_eq (s : Step) :
    ∃ fields, s.toJson = .object fields ∧ s.EncodesFields fields := by
  refine ⟨_, rfl, ⟨encodesText_optionalField _ _, encodesText_optionalField _ _,
    encodesText_optionalField _ _, ?_⟩⟩
  split
  · rename_i hnone
    rw [hnone]
    exact .absent
  · exact .object (List.Perm.refl _)

theorem encodedAs_toJson (s : Step) : s.EncodedAs s.toJson := by
  obtain ⟨fields, hjson, hencodes⟩ := s.exists_toJson_eq
  rw [hjson]
  exact ⟨hencodes, shows_self hencodes.sublist.subset⟩

end Step

theorem mapM_toStep?_eq {steps : List Step} {items : List Json}
    (h : List.Forall₂ Step.EncodedAs steps items) :
    items.mapM Json.toStep? = some steps := by
  induction h with
  | nil => rfl
  | cons hstep _ ih => simp [List.mapM_cons, hstep.toStep?_eq, ih]

namespace Process

variable {p : Process}

theorem EncodedAs.toProcess?_eq {j : Json} (h : p.EncodedAs j) : j.toProcess? = some p := by
  obtain ⟨hsteps, hshows⟩ := h
  rename_i items fields
  have hname : fields.lookup "name" = some (.string p.name) := hshows.lookup_eq (by simp) (by simp)
  have hitems : fields.lookup "steps" = some (.array items) := hshows.lookup_eq (by simp) (by simp)
  simp [Json.toProcess?, Json.record?, hname, hitems, Json.text?, Json.toSteps?,
    mapM_toStep?_eq hsteps]

theorem encodedAs_toJson (p : Process) : p.EncodedAs p.toJson := by
  refine ⟨?_, shows_self (by simp)⟩
  rw [List.forall₂_map_right_iff]
  exact List.forall₂_same.2 fun s _ => s.encodedAs_toJson

end Process

section texts

variable {depth : Nat} {name : String} {text : Option String} {known : List (String × Json)}
  {b : Branches}

theorem EncodesText.textual (h : EncodesText name text known) :
    ∀ field ∈ known, Textual depth field.2 := by
  cases h with
  | text s => simpa using Textual.string s
  | null => simpa using Textual.null
  | absent => simp

theorem Branches.distinct_fields (b : Branches) : (b.fields.map Prod.fst).Nodup := by
  obtain ⟨onTrue, onFalse⟩ := b
  cases onTrue <;> cases onFalse <;> simp [fields, toList, BranchLabel.all, get?, BranchLabel.name]

theorem EncodesBranches.textual (h : EncodesBranches b known) :
    ∀ field ∈ known, Textual (depth + 1) field.2 := by
  cases h with
  | @object _ fields arranged =>
    have htextual : Textual (depth + 1) (.object fields) := by
      refine .object ((arranged.map Prod.fst).nodup_iff.2 b.distinct_fields) ?_
      intro field hfield
      obtain ⟨⟨label, target⟩, -, rfl⟩ := List.mem_map.1 (arranged.mem_iff.1 hfield)
      exact .string target
    simpa using htextual
  | absent => simp

theorem Step.textual_toJson (s : Step) : Textual (depth + 2) s.toJson := by
  obtain ⟨fields, hjson, hencodes⟩ := s.exists_toJson_eq
  rw [hjson]
  refine .object hencodes.distinct ?_
  obtain ⟨hactor, hnext, hcondition, hbranches⟩ := hencodes
  simp only [List.forall_mem_append]
  refine ⟨⟨⟨⟨?_, hactor.textual⟩, hnext.textual⟩, hcondition.textual⟩, hbranches.textual⟩
  simpa using ⟨Textual.string s.id, Textual.string s.kind.name⟩

theorem Process.textual_toJson (p : Process) : Textual (depth + 4) p.toJson := by
  have hsteps : Textual (depth + 3) (.array (p.steps.map Step.toJson)) := by
    refine .array ?_
    intro item hitem
    obtain ⟨s, -, rfl⟩ := List.mem_map.1 hitem
    exact s.textual_toJson
  refine .object (by simp) ?_
  simpa using ⟨Textual.string p.name, hsteps⟩

end texts

namespace Process

theorem toProcess?_toJson (p : Process) : p.toJson.toProcess? = some p :=
  p.encodedAs_toJson.toProcess?_eq

theorem toProcess?_read?_compact (p : Process) :
    (read? p.toJson.compact).bind Json.toProcess? = some p := by
  rw [p.textual_toJson.read?_compact]
  exact p.toProcess?_toJson

/-- The JSON form of a process loses nothing, as a value and as a text: decoding it gives the
process, so that two processes with one form are the same. The process is decoded just as well when
the fields stand in another order or between unknown ones, when a missing actor, successor or
condition is written as null, and when a missing map of branches is written as an empty one.
Whatever is decoded can be encoded and decoded again. -/
theorem json_lossless (p : Process) :
    p.toJson.toProcess? = some p ∧
    (read? p.toJson.compact).bind Json.toProcess? = some p ∧
    (∀ q : Process, q.toJson = p.toJson ∨ q.toJson.compact = p.toJson.compact → q = p) ∧
    (∀ j, p.EncodedAs j → j.toProcess? = some p) ∧
    ∀ (j : Json) (q : Process), j.toProcess? = some q →
      q.toJson.toProcess? = some q ∧ (read? q.toJson.compact).bind Json.toProcess? = some q := by
  refine ⟨p.toProcess?_toJson, p.toProcess?_read?_compact, ?_, fun j h => h.toProcess?_eq,
    fun j q _ => ⟨q.toProcess?_toJson, q.toProcess?_read?_compact⟩⟩
  rintro q (hvalue | htext)
  · have hq := q.toProcess?_toJson
    rw [hvalue, p.toProcess?_toJson] at hq
    exact (Option.some.inj hq).symm
  · have hq := q.toProcess?_read?_compact
    rw [htext, p.toProcess?_read?_compact] at hq
    exact (Option.some.inj hq).symm

/-- An unknown field in front, the fields of the process exchanged; in the step an empty actor, a
null in front of the id, an unknown field behind it and an empty map of branches. -/
theorem json_lossless_padded :
    let s : Step := { id := "a", kind := .task, actor := some "" }
    let p : Process := ⟨"n", [s]⟩
    let step : Json := .object [("next", .null), ("id", .string "a"), ("note", .bool true),
      ("type", .string "task"), ("actor", .string ""), ("branches", .object [])]
    let j : Json :=
      .object [("version", .array []), ("steps", .array [step]), ("name", .string "n")]
    p.EncodedAs j ∧ j.toProcess? = some p := by
  intro s p step j
  have hstep : s.EncodedAs step := by
    let front : List (String × Json) :=
      [("id", .string "a"), ("type", .string "task"), ("actor", .string "")]
    let behind : List (String × Json) := [("branches", .object [])]
    have hnull : List.Perm (("next", .null) :: (front ++ behind))
        (front ++ ("next", .null) :: behind) :=
      List.perm_middle.symm
    exact ⟨⟨.text "", .null, .absent, .object (List.Perm.refl _)⟩, hnull⟩
  have hencoded : p.EncodedAs j := ⟨.cons hstep .nil, List.Perm.swap _ _ _⟩
  exact ⟨hencoded, (json_lossless p).2.2.2.1 j hencoded⟩

end Process

end Workflow
