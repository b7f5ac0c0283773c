import Workflow.Proofs.Diagram.Key
import Workflow.Proofs.Flowchart.Transfer
import Workflow.Proofs.Text.Pieces
/-!
Reading a diagram back. The lines of a diagram are a head, a line for each step and a line for each
edge of the flowchart. What draws a step opens with its key and tells its id and kind; what draws an
edge joins the keys of the steps at its ends.
-/

namespace Workflow

namespace Diagram

/-- The key that opens a line: the characters of keys at its start. -/
def openingKey (line : String) : String :=
  String.ofList (line.toList.takeWhile isKeyChar)

/-- Undoes the codes in a quoted label, from left to right. -/
def undoCodes : List Char → List Char
  | '#' :: 'q' :: 'u' :: 'o' :: 't' :: ';' :: r => '"' :: undoCodes r
  | '#' :: '3' :: '5' :: ';' :: r => '#' :: undoCodes r
  | c :: r => c :: undoCodes r
  | [] => []

/-- A character of an id as a label shows it: a line break is a space. -/
def shownChar (c : Char) : Char :=
  if c = '\n' ∨ c = '\r' then ' ' else c

def caption (s : Step) : String :=
  String.ofList (s.id.toList.map shownChar) ++ " (" ++ s.kind.name ++ ")"

/-- How a line draws the step at a position. It opens with a key. A step whose id is a key stands
under it; for another one a key was searched for, and the line has a label in quotes that says what
step it is. -/
structure Draws (p : Process) (position : Nat) (s : Step) (line : String) : Prop where
  opens : IsKey (openingKey line)
  plain : IsKey s.id → line = s.id ++ "[" ++ s.kind.name ++ "]"
  found : ¬IsKey s.id → SearchEnds (p.ids.filter isPlainId) (positional position) (openingKey line)
  labelled : ¬IsKey s.id → ∃ label : String, line = openingKey line ++ "[\"" ++ label ++ "\"]" ∧
    '"' ∉ label.toList ∧ String.ofList (undoCodes label.toList) = caption s

def arrowOf (label : String) : String :=
  if label = "" then "-->" else "--" ++ label ++ "-->"

/-- Among the lines of the steps, the one of the step with this id opens with this key. -/
def Keyed (p : Process) (stepLines : List String) (id key : String) : Prop :=
  ∃ (i : Nat) (s : Step) (line : String), p.steps[i]? = some s ∧ s.id = id ∧
    stepLines[i]? = some line ∧
    openingKey line = key

/-- A line draws an edge: it joins the keys of the steps at both ends. -/
def Joins (p : Process) (stepLines : List String) (e : FlowEdge) (line : String) : Prop :=
  ∃ a b, Keyed p stepLines e.source a ∧ Keyed p stepLines e.target b ∧
    line = a ++ " " ++ arrowOf e.label ++ " " ++ b

/-- A key ends where a character comes that no key has. -/
theorem openingKey_append {key rest : String} (hkey : IsKey key)
    (hrest : ∀ c ∈ rest.toList.head?, isKeyChar c = false) : openingKey (key ++ rest) = key := by
  have hchars : ∀ c ∈ key.toList, isKeyChar c = true :=
    fun c hc => isKeyChar_iff.2 (hkey.chars c hc)
  have hnil : rest.toList.takeWhile isKeyChar = [] := by
    cases hr : rest.toList with
    | nil => rfl
    | cons c r => rw [List.takeWhile_cons_of_neg]; simp [hrest c (by simp [hr])]
  rw [openingKey, String.toList_append, List.takeWhile_append_of_pos hchars, hnil, List.append_nil,
    String.ofList_toList]

/-- The codes of one character are undone without a look at the others. -/
theorem undoCodes_escapeInLabel (c : Char) (r : List Char) :
    undoCodes (escapeInLabel c ++ r) = shownChar c :: undoCodes r := by
  by_cases hquote : c = '"'
  · subst hquote
    simp [escapeInLabel, undoCodes, shownChar]
  by_cases hhash : c = '#'
  · subst hhash
    simp [escapeInLabel, undoCodes, shownChar]
  by_cases hbreak : c = '\n' ∨ c = '\r'
  · simp [escapeInLabel, undoCodes, shownChar, hquote, hhash, hbreak]
  · simp [escapeInLabel, undoCodes, shownChar, hquote, hhash, hbreak]

theorem undoCodes_flatMap (text rest : List Char) :
    undoCodes (text.flatMap escapeInLabel ++ rest) = text.map shownChar ++ undoCodes rest := by
  induction text with
  | nil => rfl
  | cons c text ih =>
    rw [List.flatMap_cons, List.append_assoc, undoCodes_escapeInLabel, ih]
    rfl

/-- An escaped character neither ends a label nor a line. -/
theorem notMem_escapeInLabel (c : Char) : '"' ∉ escapeInLabel c ∧ '\n' ∉ escapeInLabel c := by
  rw [escapeInLabel]
  split
  · decide
  · split
    · decide
    · split
      · decide
      · rename_i hnotQuote _ hnotBreak
        have hbreak : c ≠ '\n' := by
          rintro rfl
          simp at hnotBreak
        exact ⟨by simpa using Ne.symm hnotQuote, by simpa using Ne.symm hbreak⟩

/-- The label of a step that is not drawn under its own id. -/
def quotedLabel (n : FlowNode) : String :=
  labelText n.id ++ " (" ++ n.kind.name ++ ")"

theorem toList_quotedLabel (n : FlowNode) :
    (quotedLabel n).toList = n.id.toList.flatMap escapeInLabel ++
      (" (" ++ n.kind.name ++ ")").toList := by
  simp [quotedLabel, labelText]

theorem notMem_quotedLabel (n : FlowNode) :
    '"' ∉ (quotedLabel n).toList ∧ '\n' ∉ (quotedLabel n).toList := by
  have hid {x : Char} (h : ∀ c, x ∉ escapeInLabel c) : x ∉ n.id.toList.flatMap escapeInLabel := by
    intro hx
    obtain ⟨c, -, hc⟩ := List.mem_flatMap.1 hx
    exact h c hc
  have hkind : '"' ∉ (" (" ++ n.kind.name ++ ")").toList ∧
      '\n' ∉ (" (" ++ n.kind.name ++ ")").toList := by
    cases n.kind <;> decide
  rw [toList_quotedLabel, List.mem_append, List.mem_append, not_or, not_or]
  exact ⟨⟨hid fun c => (notMem_escapeInLabel c).1, hkind.1⟩,
    ⟨hid fun c => (notMem_escapeInLabel c).2, hkind.2⟩⟩

/-- Undoing the codes gives back what the label says of the step. -/
theorem undoCodes_quotedLabel (s : Step) :
    String.ofList (undoCodes (quotedLabel s.node).toList) = caption s := by
  have hkind : undoCodes (" (" ++ s.kind.name ++ ")").toList =
      (" (" ++ s.kind.name ++ ")").toList := by
    cases s.kind <;> decide
  rw [toList_quotedLabel, undoCodes_flatMap]
  change String.ofList (s.id.toList.map shownChar ++
    undoCodes (" (" ++ s.kind.name ++ ")").toList) = _
  rw [hkind, caption, ← String.toList_inj]
  simp

theorem nodeLine_of_isKey {table : List (String × String)} {n : FlowNode} (h : IsKey n.id) :
    nodeLine table n = n.id ++ ("[" ++ n.kind.name ++ "]") := by
  rw [nodeLine, if_pos (isPlainId_iff.2 h), String.append_assoc, String.append_assoc,
    String.append_assoc]

theorem nodeLine_of_not_isKey {table : List (String × String)} {n : FlowNode} (h : ¬IsKey n.id) :
    nodeLine table n = keyOf table n.id ++ ("[\"" ++ quotedLabel n ++ "\"]") := by
  rw [nodeLine, if_neg (fun hplain => h (isPlainId_iff.1 hplain)), quotedLabel]
  simp only [← String.toList_inj, String.toList_append, List.append_assoc]
  rfl

theorem arrow_eq (label : String) : arrow label = " " ++ arrowOf label ++ " " := by
  rw [arrow, arrowOf]
  split
  · rfl
  · simp only [← String.toList_inj, String.toList_append, List.append_assoc]
    rfl

def stepLines (p : Process) : List String :=
  p.flowchart.nodes.map (nodeLine (keys p.flowchart.nodes))

def edgeLines (p : Process) : List String :=
  p.flowchart.edges.map (edgeLine (keys p.flowchart.nodes))

def stepKey (p : Process) (position : Nat) (s : Step) : String :=
  nodeKey (plainIds p.flowchart.nodes) position s.node

theorem stepLines_getElem? (p : Process) (i : Nat) :
    (stepLines p)[i]? = p.steps[i]?.map fun s => nodeLine (keys p.flowchart.nodes) s.node := by
  rw [stepLines, Process.flowchart]
  simp [Function.comp_def]

section WellFormed

variable {p : Process} (h : p.WellFormed)

include h

theorem keyOf_id {i : Nat} {s : Step} (hs : p.steps[i]? = some s) :
    keyOf (keys p.flowchart.nodes) s.id = stepKey p i s := by
  have hnode : p.flowchart.nodes[i]? = some s.node := by simp [Process.flowchart, hs]
  exact keyOf_eq (p.map_id_nodes.symm ▸ h.distinct) hnode

/-- The line of a step opens with the key under which the step is drawn. -/
theorem openingKey_nodeLine {i : Nat} {s : Step} (hs : p.steps[i]? = some s) :
    openingKey (nodeLine (keys p.flowchart.nodes) s.node) = stepKey p i s := by
  have hbracket (text : String) : ∀ c ∈ ("[" ++ text ++ "]").toList.head?, isKeyChar c = false := by
    intro c hc
    simp at hc
    exact hc ▸ by decide
  have hquote (text : String) : ∀ c ∈ ("[\"" ++ text ++ "\"]").toList.head?,
      isKeyChar c = false := by
    intro c hc
    simp at hc
    exact hc ▸ by decide
  -- What follows the key, a bracket, is no character of keys.
  by_cases hplain : IsKey s.id
  · have hown : stepKey p i s = s.node.id := nodeKey_of_isKey hplain
    rw [nodeLine_of_isKey hplain, hown]
    exact openingKey_append hplain (hbracket _)
  · have hkey : keyOf (keys p.flowchart.nodes) s.node.id = stepKey p i s := keyOf_id h hs
    rw [nodeLine_of_not_isKey hplain, hkey]
    exact openingKey_append (isKey_nodeKey _ i s.node) (hquote _)

/-- The line of each step draws it. -/
theorem draws_nodeLine {i : Nat} {s : Step} (hs : p.steps[i]? = some s) :
    Draws p i s (nodeLine (keys p.flowchart.nodes) s.node) := by
  have hopening := openingKey_nodeLine h hs
  refine ⟨?_, ?_, ?_, ?_⟩
  · rw [hopening]
    exact isKey_nodeKey _ i s.node
  · intro hplain
    rw [nodeLine_of_isKey hplain, String.append_assoc, String.append_assoc, String.append_assoc]
    rfl
  · intro hlabelled
    rw [hopening, ← p.map_id_nodes]
    exact searchEnds_nodeKey _ i hlabelled
  · intro hlabelled
    have hkey : keyOf (keys p.flowchart.nodes) s.node.id = stepKey p i s := keyOf_id h hs
    refine ⟨quotedLabel s.node, ?_, (notMem_quotedLabel s.node).1, undoCodes_quotedLabel s⟩
    rw [hopening, nodeLine_of_not_isKey hlabelled, hkey]
    simp only [String.append_assoc]

theorem map_openingKey_stepLines : (stepLines p).map openingKey = p.steps.mapIdx (stepKey p) := by
  apply List.ext_getElem?
  intro i
  rw [List.getElem?_map, stepLines_getElem?, List.getElem?_mapIdx, Option.map_map]
  cases hs : p.steps[i]? with
  | none => rfl
  | some s => exact congrArg some (openingKey_nodeLine h hs)

/-- No two lines open with one key. -/
theorem nodup_openingKeys : ((stepLines p).map openingKey).Nodup := by
  rw [map_openingKey_stepLines h, List.Nodup, List.pairwise_iff_getElem]
  intro i j hi hj hij
  rw [List.length_mapIdx] at hi hj
  rw [List.getElem_mapIdx, List.getElem_mapIdx]
  have hid : p.steps[i].id ≠ p.steps[j].id := by
    have hids := List.pairwise_iff_getElem.1 h.distinct i j (by simpa [Process.ids])
      (by simpa [Process.ids]) hij
    simpa [Process.ids] using hids
  have hnode (k : Nat) (hk : k < p.steps.length) : p.steps[k].node ∈ p.flowchart.nodes :=
    List.mem_map_of_mem (List.getElem_mem hk)
  exact nodeKey_injective (hnode i hi) (hnode j hj) hid (Nat.ne_of_lt hij)

/-- The id of a step is drawn under the key of its line. -/
theorem keyed_keyOf {id : String} (hid : p.Declares id) :
    Keyed p (stepLines p) id (keyOf (keys p.flowchart.nodes) id) ∧
      IsKey (keyOf (keys p.flowchart.nodes) id) := by
  obtain ⟨s, hs, rfl⟩ := hid
  obtain ⟨i, hi⟩ := List.mem_iff_getElem?.1 hs
  rw [keyOf_id h hi]
  refine ⟨⟨i, s, _, hi, rfl, ?_, openingKey_nodeLine h hi⟩, isKey_nodeKey _ i s.node⟩
  rw [stepLines_getElem?, hi]
  rfl

theorem joins_edgeLine {e : FlowEdge} (he : e ∈ p.flowchart.edges) :
    Joins p (stepLines p) e (edgeLine (keys p.flowchart.nodes) e) := by
  obtain ⟨s, hs, hedge⟩ := List.mem_flatMap.1 he
  obtain ⟨hsource, -⟩ := keyed_keyOf h ⟨s, hs, (Step.source_of_mem_edges hedge).symm⟩
  obtain ⟨htarget, -⟩ := keyed_keyOf h (h.declares_target hs hedge)
  refine ⟨_, _, hsource, htarget, ?_⟩
  rw [edgeLine, arrow_eq]
  simp only [String.append_assoc]

/-- No line is broken. -/
theorem unbroken_of_mem_allLines {d : Direction} {line : String}
    (hline : line ∈ allLines p.flowchart d) :
    '\n' ∉ line.toList := by
  have hkey {key : String} (hk : IsKey key) : '\n' ∉ key.toList := by
    intro hbreak
    exact absurd (isKeyChar_iff.2 (hk.chars _ hbreak)) (by decide)
  rw [allLines, List.mem_cons, List.mem_append] at hline
  rcases hline with rfl | hline | hline
  · cases d <;> decide
  · obtain ⟨n, hn, rfl⟩ := List.mem_map.1 hline
    obtain ⟨s, hs, rfl⟩ := List.mem_map.1 hn
    have hkind : '\n' ∉ s.kind.name.toList := by cases s.kind <;> decide
    by_cases hplain : IsKey s.id
    · have hid : '\n' ∉ s.node.id.toList := hkey hplain
      have hkind' : '\n' ∉ s.node.kind.name.toList := hkind
      rw [nodeLine_of_isKey hplain]
      simp [hid, hkind']
    · have hlabel : '\n' ∉ (quotedLabel s.node).toList := (notMem_quotedLabel s.node).2
      have hown : '\n' ∉ (keyOf (keys p.flowchart.nodes) s.node.id).toList :=
        hkey (keyed_keyOf h ⟨s, hs, rfl⟩).2
      rw [nodeLine_of_not_isKey hplain]
      simp [hlabel, hown]
  · obtain ⟨e, he, rfl⟩ := List.mem_map.1 hline
    obtain ⟨s, hs, hedge⟩ := List.mem_flatMap.1 he
    -- An edge has no label or that of a branch.
    have hsource := hkey (keyed_keyOf h ⟨s, hs, (Step.source_of_mem_edges hedge).symm⟩).2
    have htarget := hkey (keyed_keyOf h (h.declares_target hs hedge)).2
    have harrow : '\n' ∉ (arrow e.label).toList := by
      rcases Step.mem_edges_iff.1 hedge with ⟨target, -, rfl⟩ | ⟨label, target, -, rfl⟩
      · change '\n' ∉ (arrow "").toList
        decide
      · change '\n' ∉ (arrow label.name).toList
        cases label <;> decide
    rw [edgeLine]
    simp [hsource, htarget, harrow]

/-- The text of a diagram is split at its line feeds into its lines. -/
theorem lines_diagram (d : Direction) :
    (Text.splitAt '\n' (p.diagram d).toList).map String.ofList = allLines p.flowchart d := by
  have hunbroken : ∀ line ∈ (allLines p.flowchart d).map String.toList, '\n' ∉ line := by
    intro line hline
    obtain ⟨text, htext, rfl⟩ := List.mem_map.1 hline
    exact unbroken_of_mem_allLines h htext
  rw [Process.diagram, String.toList_ofList, Text.splitAt_joinWith (by simp [allLines]) hunbroken,
    List.map_map]
  simp [Function.comp_def]

end WellFormed

end Diagram

namespace Process

open Diagram

/-- The diagram of an accepted process draws its flowchart. Its lines are a head, one for each step
and one for each edge, in order. The lines of the steps open with different keys and draw the steps;
the line of an edge joins the keys of its two steps by the arrow of its label. -/
theorem diagram_draws_flowchart {p : Process} (accepted : p.check = .ok ()) (d : Direction) :
    ∃ stepLines edgeLines : List String,
      (Text.splitAt '\n' (p.diagram d).toList).map String.ofList =
        ("flowchart " ++ d.code) :: (stepLines ++ edgeLines) ∧
      stepLines.length = p.steps.length ∧
      (stepLines.map openingKey).Nodup ∧
      (∀ i s line, p.steps[i]? = some s → stepLines[i]? = some line → Draws p i s line) ∧
      List.Forall₂ (Joins p stepLines) p.flowchart.edges edgeLines := by
  have h : p.WellFormed := wellFormed_of_check accepted
  refine ⟨Diagram.stepLines p, Diagram.edgeLines p, ?_, ?_, nodup_openingKeys h, ?_, ?_⟩
  · exact lines_diagram h d
  · simp [Diagram.stepLines, flowchart]
  · intro i s line hs hline
    rw [stepLines_getElem?, hs] at hline
    obtain rfl := Option.some.inj hline
    exact draws_nodeLine h hs
  · rw [Diagram.edgeLines, List.forall₂_map_right_iff, List.forall₂_same]
    intro e he
    exact joins_edgeLine h he

/-- A process with ids that the markup does not take, one of them in the way of a key. -/
def quotedProcess : Process where
  name := "quoted"
  steps :=
    [{ id := "a b", kind := .task, actor := some "x", next := some "step_0" },
     { id := "step_0", kind := .decision, condition := some "x", branches := ⟨none, some "\"#\n"⟩ },
     { id := "\"#\n", kind := .finish }]

theorem diagram_draws_flowchart_quoted :
    quotedProcess.check = .ok () ∧
    ∃ stepLines edgeLines : List String,
      stepLines ++ edgeLines =
        ["step_0_[\"a b (task)\"]", "step_0[decision]", "step_2[\"#quot;#35;  (end)\"]",
          "step_0_ --> step_0", "step_0 --else--> step_2"] ∧
      (stepLines.map openingKey).Nodup ∧
      List.Forall₂ (Joins quotedProcess stepLines) quotedProcess.flowchart.edges edgeLines := by
  have accepted : quotedProcess.check = .ok () := by decide +kernel
  obtain ⟨stepLines, edgeLines, hlines, -, hnodup, -, hjoins⟩ :=
    diagram_draws_flowchart accepted .topDown
  have htext : (Text.splitAt '\n' (quotedProcess.diagram .topDown).toList).map String.ofList =
      "flowchart TD" :: ["step_0_[\"a b (task)\"]", "step_0[decision]",
        "step_2[\"#quot;#35;  (end)\"]", "step_0_ --> step_0", "step_0 --else--> step_2"] := by
    decide +kernel
  refine ⟨accepted, stepLines, edgeLines, ?_, hnodup, hjoins⟩
  exact (List.cons.inj (hlines.symm.trans htext)).2

end Process

end Workflow
