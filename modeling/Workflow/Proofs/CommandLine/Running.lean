import Workflow.CommandLine
import Workflow.Proofs.Catalog.Folder
import Workflow.Proofs.Disk.Writing

namespace Workflow

namespace ArtifactKind

theorem suffix_injective : Function.Injective suffix := by
  intro k k' h
  cases k <;> cases k' <;> first | rfl | exact absurd h (by decide)

/-- Files of different kinds have different names. -/
theorem fileName_injective (stem : String) :
    Function.Injective fun k : ArtifactKind => k.fileName stem := by
  intro k k' h
  have hlist : stem.toList ++ k.suffix.toList = stem.toList ++ k'.suffix.toList := by
    simpa [fileName] using congrArg String.toList h
  exact suffix_injective (String.toList_inj.1 (List.append_cancel_left hlist))

theorem isName_fileName {stem : String} (h : '/' ∉ stem.toList) (k : ArtifactKind) :
    Path.IsName (k.fileName stem) := by
  have hsuffix : 2 < k.suffix.toList.length ∧ '/' ∉ k.suffix.toList := by cases k <;> decide
  have hlength : 2 < (k.fileName stem).toList.length := by
    rw [fileName, String.toList_append, List.length_append]
    omega
  have hne (text : String) (htext : text.toList.length ≤ 2) : k.fileName stem ≠ text := by
    rintro rfl
    omega
  refine ⟨?_, hne ".." (by decide), ?_⟩
  · simp [Path.isStill, hne "" (by decide), hne "." (by decide)]
  · rw [fileName, String.toList_append, List.mem_append]
    rintro (hmem | hmem)
    · exact h hmem
    · exact hsuffix.2 hmem

end ArtifactKind

/-- What is asked for is made. -/
theorem Settings.exists_render? {s : Settings} {k : ArtifactKind} (h : k ∈ s.emit) (p : Process) :
    ∃ text, (s.made p).render? k = some text := by
  cases k <;> simp [Artifacts.render?, made, h]

def Disk.settings? (d : Disk) (config : Option String) (reader : Option Reader) : Option Settings :=
  let read := match config with
    | some path => (d.read? path).bind Settings.read?
    | none => some {}
  read.map fun settings => { settings with reader := reader.getD settings.reader }

theorem Disk.run_read {d : Disk} {path text : String} (h : d.read? path = some text) :
    (files.read path).run d = (pure (some text, d) : Id _) := by
  rw [← h]
  rfl

/-- A change of the disk that succeeds. -/
theorem Disk.run_change {change : Disk → Option Disk} {d changed : Disk}
    (h : change d = some changed) :
    (do match change (← get) with
      | some d => set d; return true
      | none => return false : StateM Disk Bool).run d = (pure (true, changed) : Id _) := by
  have hget : (get : StateM Disk Disk).run d = (pure (d, d) : Id _) := rfl
  rw [StateT.run_bind, hget, pure_bind]
  dsimp only
  rw [h]
  rfl

theorem Disk.run_write {d written : Disk} {path text : String}
    (h : d.write? path (Octets.ofText text) = some written) :
    (files.write path text).run d = (pure (true, written) : Id _) :=
  @run_change (fun d => d.write? path (Octets.ofText text)) d written h

theorem Disk.run_makeFolder {d made : Disk} {path : String} (h : d.makeFolder? path = some made) :
    (files.makeFolder path).run d = (pure (true, made) : Id _) :=
  @run_change (fun d => d.makeFolder? path) d made h

namespace CommandLine

/-- The stem of a document is cut from the last piece of its path. -/
theorem slashless_stem (file : String) : '/' ∉ (stem file).toList := by
  rw [stem, Path.stem?]
  cases hname : (Path.ofText file).fileName? with
  | none => decide
  | some name =>
    have hpiece : name ∈ (Path.ofText file).pieces := by
      rw [Path.fileName?, Option.filter_eq_some_iff] at hname
      exact List.mem_of_getLast? hname.1
    obtain ⟨rest, hrest⟩ := Path.exists_partName name
    have hslashless := Path.slashless_of_mem_pieces hpiece
    rw [hrest, String.toList_append, List.mem_append, not_or] at hslashless
    exact hslashless.1

/-- The texts are those of the artifacts that are asked for and made. -/
theorem mem_texts_iff {settings : Settings} {a : Artifacts} {k : ArtifactKind} {text : String} :
    (k, text) ∈ texts settings a ↔ k ∈ settings.emit ∧ a.render? k = some text := by
  simp only [texts, List.mem_filterMap, Option.map_eq_some_iff]
  constructor
  · rintro ⟨k', hk, t, ht, heq⟩
    obtain ⟨rfl, rfl⟩ := Prod.mk.inj heq
    exact ⟨hk, ht⟩
  · rintro ⟨hk, ht⟩
    exact ⟨k, hk, text, ht, rfl⟩

section Runs

variable {d : Disk} {settings : Settings}

/-- Reading settings changes nothing. -/
theorem run_invocation {config : Option String} {reader : Option Reader}
    (configured : d.settings? config reader = some settings) (verbose : Bool)
    (jobs stages : Schedule) (c : Command) :
    (Invocation.run Disk.files jobs stages ⟨config, reader, verbose, c⟩).run d =
      (c.run Disk.files settings jobs stages).run d := by
  -- Reading the settings leaves the disk as it is, so the command runs as it does alone.
  have hread : (readSettings Disk.files ⟨config, reader, verbose, c⟩).run d =
      (.ok settings, d) := by
    cases config with
    | none =>
      obtain rfl := Option.some.inj configured
      rfl
    | some path =>
      obtain ⟨given, hgiven, rfl⟩ := Option.map_eq_some_iff.1 configured
      obtain ⟨text, htext, hsettings⟩ := Option.bind_eq_some_iff.1 hgiven
      have hfile : (Disk.files.readSettings path).run d = (.ok given, d) := by
        rw [Files.readSettings, StateT.run_bind, Disk.run_read htext, pure_bind]
        dsimp only
        rw [hsettings]
        rfl
      change ((Disk.files.readSettings path) >>= fun read => pure (read.map _)).run d = _
      rw [StateT.run_bind, hfile]
      rfl
  rw [Invocation.run, StateT.run_bind, hread]
  rfl

/-- Reading a document changes nothing. -/
theorem run_withDocument {file text : String} (readable : d.read? file = some text)
    (next : String → StateM Disk Report) :
    (withDocument Disk.files file next).run d = (next text).run d := by
  have hfile : (Disk.files.readDocument file).run d = (.ok text, d) := by
    rw [Files.readDocument, StateT.run_bind, Disk.run_read readable]
    rfl
  rw [withDocument, StateT.run_bind, hfile]
  rfl

theorem run_check (settings : Settings) {file text : String} (readable : d.read? file = some text) :
    (check Disk.files settings file).run d =
      (match acceptProcess settings.reader text with
        | .error fault => .refused fault
        | .ok p => .done (file ++ ": ok (" ++ toString p.steps.length ++ " steps)\n"), d) := by
  rw [check, run_withDocument readable]
  rfl

/-- A simulation prints its pairs or tells why there are none, and leaves the disk as it is. -/
theorem run_simulate (settings : Settings) {file text : String}
    (readable : d.read? file = some text) (vars : Bindings) :
    (simulate Disk.files settings file vars).run d =
      (match acceptProcess settings.reader text with
        | .error fault => .refused fault
        | .ok p =>
          match p.simulate vars with
          | .error fault => .refused (.condition fault)
          | .ok pairs => .done (String.join (pairs.map printedPair)), d) := by
  rw [simulate, run_withDocument readable]
  rfl

def artifactFiles (stem : String) (made : List (ArtifactKind × String)) : List (String × Octets) :=
  made.map fun (k, text) => (k.fileName stem, Octets.ofText text)

/-- Where none of their files is a folder, all artifacts are written. -/
theorem run_writeAll {folder stem : String} {place : Place} {made : List (ArtifactKind × String)}
    (hstem : '/' ∉ stem.toList)
    (leads : ∀ name, Path.IsName name → d.place? (Path.join folder name) = some (place ++ [name]))
    (free : ∀ k text, (k, text) ∈ made → d.isFolder (place ++ [k.fileName stem]) = false) :
    (writeAll Disk.files folder stem made).run d =
      (.done "", Disk.putAll place d (artifactFiles stem made)) := by
  induction made generalizing d with
  | nil => rfl
  | cons first rest ih =>
    obtain ⟨k, text⟩ := first
    have hfree := free k text List.mem_cons_self
    have hplace := leads _ (k.isName_fileName hstem)
    let written := d.put (place ++ [k.fileName stem]) (.file (Octets.ofText text))
    have hwrite : d.write? (Path.join folder (k.fileName stem)) (Octets.ofText text) =
        some written := by
      rw [Disk.write?, hplace]
      simp [hfree, written]
    -- The file takes no folder's place, so every path still leads where it led.
    have hleads : ∀ name, Path.IsName name → written.place? (Path.join folder name) =
        some (place ++ [name]) := by
      intro name hname
      rw [Disk.place?_congr (Disk.isFolder_put_file hfree _), leads name hname]
    have hrest : ∀ k text, (k, text) ∈ rest →
        written.isFolder (place ++ [k.fileName stem]) = false := by
      intro k' text' hmem
      rw [Disk.isFolder_put_file hfree]
      exact free k' text' (List.mem_cons_of_mem _ hmem)
    rw [writeAll, StateT.run_bind, Disk.run_write hwrite, pure_bind]
    exact ih hleads hrest

theorem run_compile_of_error {file text : String} (readable : d.read? file = some text)
    {fault : Failure} (refused : acceptProcess settings.reader text = .error fault)
    (stages : Schedule) (outFolder : Option String) :
    (compile Disk.files settings stages file outFolder).run d = (.refused fault, d) := by
  rw [compile, run_withDocument readable, Settings.compileScheduled_eq_map, refused]
  rfl

theorem run_compile_none {file text : String} (readable : d.read? file = some text) {p : Process}
    (accepted : acceptProcess settings.reader text = .ok p) (stages : Schedule) :
    (compile Disk.files settings stages file none).run d =
      (.done (String.join ((texts settings (settings.made p)).map printed)), d) := by
  rw [compile, run_withDocument readable, Settings.compileScheduled_eq_map, accepted]
  rfl

theorem run_compile_some {file text : String} (readable : d.read? file = some text) {p : Process}
    (accepted : acceptProcess settings.reader text = .ok p) (stages : Schedule) (folder : String) :
    (compile Disk.files settings stages file (some folder)).run d =
      (writeAll Disk.files folder (stem file) (texts settings (settings.made p))).run d := by
  rw [compile, run_withDocument readable, Settings.compileScheduled_eq_map, accepted]
  rfl

/-- The folder for artifacts is made first. -/
theorem run_withFolder {folder : String} {ready : Disk} (made : d.makeFolder? folder = some ready)
    (next : StateM Disk Report) : (withFolder Disk.files (some folder) next).run d =
      next.run ready := by
  rw [withFolder, StateT.run_bind, Disk.run_makeFolder made]
  rfl

def summaryOf (settings : Settings) (sources : List Source) : Summary :=
  Summary.ofResults (sources.map fun s => (s.path, s.verdict settings))

theorem run_batch {folder : String} {sources : List Source}
    (listed : d.sources? folder = some sources) (jobs stages : Schedule) :
    (batch Disk.files settings jobs stages folder).run d =
      ({ status := if (summaryOf settings sources).failed.isEmpty then .success else .failure
         output := printedSummary (summaryOf settings sources) }, d) := by
  have hsummary : summaryOf settings sources =
      (Catalog.compileSources { settings } jobs stages sources).2 :=
    (Catalog.summary_compileSources { settings } jobs stages sources).symm
  rw [batch, StateT.run_bind, Catalog.run_compileFolder, listed, hsummary]
  rfl

end Runs

end CommandLine

end Workflow
