import Workflow.Artifact

namespace Workflow

def StageOutput.kind : StageOutput → ArtifactKind
  | optimizations _ => .optimizations
  | python _ => .python
  | javascript _ => .javascript
  | flowchart _ => .flowchart
  | mermaid _ => .mermaid

theorem ArtifactKind.kind_run (k : ArtifactKind) (p : Process) (d : Direction) :
    (k.run p d).kind = k := by
  cases k <;> rfl

namespace Artifacts

def output? (a : Artifacts) : ArtifactKind → Option StageOutput
  | .optimizations => a.optimizations.map .optimizations
  | .python => a.python.map .python
  | .javascript => a.javascript.map .javascript
  | .flowchart => a.flowchart.map .flowchart
  | .mermaid => a.mermaid.map .mermaid

/-- Nothing is in artifacts but their process and their outputs. -/
theorem eq_of_output? {a b : Artifacts} (hp : a.process = b.process)
    (ho : ∀ k, a.output? k = b.output? k) :
    a = b := by
  have hinj {α : Type} {f : α → StageOutput} (hf : Function.Injective f) {x y : Option α}
      (h : x.map f = y.map f) : x = y := Option.map_injective hf h
  have hoptimizations := hinj (fun _ _ => StageOutput.optimizations.inj) (ho .optimizations)
  have hpython := hinj (fun _ _ => StageOutput.python.inj) (ho .python)
  have hjavascript := hinj (fun _ _ => StageOutput.javascript.inj) (ho .javascript)
  have hflowchart := hinj (fun _ _ => StageOutput.flowchart.inj) (ho .flowchart)
  have hmermaid := hinj (fun _ _ => StageOutput.mermaid.inj) (ho .mermaid)
  cases a
  cases b
  simp_all only

theorem output?_enter (a : Artifacts) (o : StageOutput) (k : ArtifactKind) :
    (a.enter o).output? k = if k = o.kind then some o else a.output? k := by
  cases o <;> cases k <;> rfl

theorem process_enter (a : Artifacts) (o : StageOutput) : (a.enter o).process = a.process := by
  cases o <;> rfl

theorem process_foldl_enter (outputs : List StageOutput) (a : Artifacts) :
    (outputs.foldl enter a).process = a.process := by
  induction outputs generalizing a with
  | nil => rfl
  | cons o os ih => rw [List.foldl_cons, ih, process_enter]

/-- Entering what stages make of one process leaves under each kind what its stage makes, if it was
among them, and what was there otherwise. -/
theorem output?_foldl_enter {p : Process} {d : Direction} {outputs : List StageOutput}
    (h : ∀ o ∈ outputs, o = o.kind.run p d) (a : Artifacts) (k : ArtifactKind) :
    (outputs.foldl enter a).output? k =
      if k ∈ outputs.map StageOutput.kind then some (k.run p d) else a.output? k := by
  induction outputs generalizing a with
  | nil => simp
  | cons o os ih =>
    have hrest := ih (fun o' ho' => h o' (List.mem_cons_of_mem o ho')) (a.enter o)
    have hfirst : o = o.kind.run p d := h o List.mem_cons_self
    rw [List.foldl_cons, hrest, output?_enter, List.map_cons]
    by_cases hlater : k ∈ os.map StageOutput.kind
    -- A later output of the kind takes the place of this one, and is the same.
    · rw [if_pos hlater, if_pos (List.mem_cons_of_mem _ hlater)]
    · by_cases hk : k = o.kind
      · subst hk
        rw [if_neg hlater, if_pos rfl, if_pos List.mem_cons_self, ← hfirst]
      · have hnot : k ∉ o.kind :: os.map StageOutput.kind := by
          intro hmem
          rcases List.mem_cons.1 hmem with heq | hmem
          · exact hk heq
          · exact hlater hmem
        rw [if_neg hlater, if_neg hk, if_neg hnot]

end Artifacts

namespace Settings

/-- A process with the artifacts that are asked for, each as its own stage makes it of the
process. -/
def made (s : Settings) (p : Process) : Artifacts where
  process := p
  optimizations := if .optimizations ∈ s.emit then some p.suggestions else none
  python := if .python ∈ s.emit then some (p.generate .python) else none
  javascript := if .javascript ∈ s.emit then some (p.generate .javascript) else none
  flowchart := if .flowchart ∈ s.emit then some p.flowchart else none
  mermaid := if .mermaid ∈ s.emit then some (p.diagram s.direction) else none

theorem output?_made (s : Settings) (p : Process) (k : ArtifactKind) :
    (s.made p).output? k = if k ∈ s.emit then some (k.run p s.direction) else none := by
  cases k <;> exact apply_ite (Option.map _) _ _ _

/-- All outputs of the stages, entered in any order, are the artifacts that are asked for. -/
theorem gather_of_perm {s : Settings} {p : Process} {ended : List StageOutput}
    (h : ended.Perm (s.outputs p)) : Artifacts.gather p ended = s.made p := by
  have hrun : ∀ o ∈ ended, o = o.kind.run p s.direction := by
    intro o ho
    obtain ⟨k, -, rfl⟩ := List.mem_map.1 (h.mem_iff.1 ho)
    rw [ArtifactKind.kind_run]
  have hkinds : (ended.map StageOutput.kind).Perm s.emit := by
    have hmap : (s.outputs p).map StageOutput.kind = s.emit := by
      simp [outputs, Function.comp_def, ArtifactKind.kind_run]
    exact hmap ▸ h.map StageOutput.kind
  -- Artifacts are known by their process and by what each kind has as its output.
  apply Artifacts.eq_of_output?
  · exact Artifacts.process_foldl_enter ended _
  · intro k
    rw [Artifacts.gather, Artifacts.output?_foldl_enter hrun, output?_made]
    have hnone : ({ process := p } : Artifacts).output? k = none := by cases k <;> rfl
    simp only [hkinds.mem_iff, hnone]

theorem compileScheduled_eq_map (s : Settings) (schedule : Schedule) (text : String) :
    s.compileScheduled schedule text = (acceptProcess s.reader text).map s.made := by
  rw [compileScheduled]
  cases acceptProcess s.reader text with
  | error fault => rfl
  | ok p =>
    dsimp only [Except.map]
    rw [gather_of_perm (schedule.perm_order _)]

theorem compile_eq_map (s : Settings) (text : String) :
    s.compile text = (acceptProcess s.reader text).map s.made := by
  rw [compile]
  cases acceptProcess s.reader text with
  | error fault => rfl
  | ok p =>
    dsimp only [Except.map]
    rw [gather_of_perm (List.Perm.refl _)]

theorem compile_eq_ok_iff {s : Settings} {text : String} {a : Artifacts} :
    s.compile text = .ok a ↔ ∃ p, acceptProcess s.reader text = .ok p ∧ a = s.made p := by
  rw [compile_eq_map]
  cases acceptProcess s.reader text with
  | error fault => simp [Except.map]
  | ok p => simp [Except.map, eq_comm]

/-- Compiling with all stages side by side gives what compiling them one after another gives, in
whatever order they end: the fault of the document, or its process with each artifact that is asked
for. -/
theorem compileScheduled_eq_compile (s : Settings) (text : String) :
    (∀ schedule, s.compileScheduled schedule text = s.compile text) ∧
      s.compile text = (acceptProcess s.reader text).map s.made := by
  refine ⟨?_, s.compile_eq_map text⟩
  intro schedule
  rw [compileScheduled_eq_map, compile_eq_map]

end Settings

end Workflow
