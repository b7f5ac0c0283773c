import Workflow.Proofs.CommandLine.Running
/-!
The commands agree. A document is accepted or not by its text and its reader alone, whichever
command reads it. One that is not accepted leaves nothing behind; of one that is, the artifacts that
are asked for end in files of their own.
-/

namespace Workflow

/-- A fault of a document is one of its form or one of its meaning. -/
theorem acceptProcess_ne_condition {reader : Reader} {text : String} (cause : ConditionFailure) :
    acceptProcess reader text ≠ .error (.condition cause) := by
  rw [acceptProcess]
  cases readProcess reader text with
  | error fault => simp
  | ok p =>
    dsimp only
    cases p.check with
    | error fault => simp
    | ok _ => simp

/-- The text of a document in a folder is that of the file at its path. -/
theorem Disk.HasDocument.text_eq {d : Disk} {folder : String} {place : Place} {s : Source}
    (h : d.HasDocument folder place s) (named : d.WellNamed)
    (hplace : (d.place? folder).filter d.isFolder = some place) : s.text = d.read? s.path := by
  obtain ⟨stem, ending, octets, -, -, hfile, rfl⟩ := h
  obtain ⟨hleads, hfolder⟩ := place?_eq_some hplace
  exact (read?_join hleads hfolder (named.isName hfile) hfile).symm

namespace CommandLine

def Command.document? : Command → Option String
  | .check file | .compile file _ _ _ | .simulate file _ => some file
  | .batch _ => none

/-- The disk on which a command reads: the folder that it is given for artifacts has been made. -/
def Command.prepared? (d : Disk) : Command → Option Disk
  | .compile _ _ _ (some folder) => d.makeFolder? folder
  | _ => some d

/-- A run ends with this number, prints nothing and leaves this disk. -/
structure Stops (code : Nat) (d : Disk) (result : Report × Disk) : Prop where
  code : result.1.status.code = code
  silent : result.1.output = ""
  disk : result.2 = d

/-- Artifacts were written into a folder. Each kind has a file of its own, which holds the text of
its artifact, and every other place is as it was. -/
structure Written (before after : Disk) (folder stem : String) (kinds : List ArtifactKind)
    (a : Artifacts) : Prop where
  names : ∀ k ∈ kinds, ∀ k' ∈ kinds, k.fileName stem = k'.fileName stem → k = k'
  held : ∀ k ∈ kinds, ∃ text, a.render? k = some text ∧
    after.octets? (Path.join folder (k.fileName stem)) = some (Octets.ofText text)
  frame : ∀ place, (∀ k ∈ kinds, before.place? (Path.join folder (k.fileName stem)) ≠ some place) →
    after.entries.get? place = before.entries.get? place

structure Prints (output : String) (d : Disk) (result : Report × Disk) : Prop where
  code : result.1.status.code = 0
  output : result.1.output = output
  content : result.1.complaint = none
  disk : result.2 = d

/-- The settings of a compilation: kinds and a direction that are asked for come before those that
are set. -/
structure Asked (settings : Settings) (emit : List ArtifactKind) (direction : Option Direction)
    (wanted : Settings) : Prop where
  reader : wanted.reader = settings.reader
  emit : wanted.emit = if emit = [] then settings.emit else emit
  direction : wanted.direction = direction.getD settings.direction

/-- Artifacts that were made are delivered: each below its name where there is no folder for them,
and into a folder that can be made where nothing is in their way. -/
structure Delivers (result : Option String → Report × Disk) (d : Disk) (stem : String)
    (kinds : List ArtifactKind) (a : Artifacts) : Prop where
  rendered : ∀ k ∈ kinds, (a.render? k).isSome
  printed : Prints
    (String.join (kinds.map fun k =>
      "=== " ++ k.name ++ " ===\n" ++ (a.render? k).getD "" ++ "\n\n")) d (result none)
  written : ∀ folder ready, d.makeFolder? folder = some ready →
    (∀ k ∈ kinds, ready.Writable (Path.join folder (k.fileName stem))) →
      ∃ after, Prints "" after (result (some folder)) ∧ Written ready after folder stem kinds a

/-- What the commands make of a document that is accepted. -/
structure Serves (result : Command → Report × Disk) (d : Disk) (settings : Settings)
    (file text : String) (p : Process) : Prop where
  checked : Prints (file ++ ": ok (" ++ toString p.steps.length ++ " steps)\n") d
    (result (.check file))
  compiled : ∀ emit direction, ∃ wanted a, Asked settings emit direction wanted ∧
    wanted.compile text = .ok a ∧
    Delivers (fun folder => result (.compile file emit direction folder)) d (stem file)
      wanted.emit a
  simulated : ∀ vars pairs, p.simulate vars = .ok pairs →
    Prints (String.join (pairs.map fun y => y.step ++ " -> " ++ y.next.getD "-" ++ "\n")) d
      (result (.simulate file vars))
  stopped : ∀ vars fault, p.simulate vars = .error fault → Stops 3 d (result (.simulate file vars))

/-- What a batch comes to. The summary lists the documents of the folder, each on one side, and its
lines are printed in its order; the run ends well if all documents are accepted. -/
structure Sorts (result : Report × Disk) (d : Disk) (reader : Reader) (documents : Source → Prop)
    (summary : Summary) : Prop where
  output : result.1.output =
    String.join (summary.compiled.map fun path => "ok      " ++ path ++ "\n") ++
      String.join (summary.failed.map fun f => "FAILED  " ++ f.1 ++ ": " ++ f.2 ++ "\n")
  disk : result.2 = d
  listed : summary.Lists reader documents
  compiled : ∀ s, documents s → (s.path ∈ summary.compiled ↔ s.Accepted reader)
  failed : ∀ s, documents s → (s.path ∈ summary.failed.map Prod.fst ↔ ¬s.Accepted reader)
  code : result.1.status.code = 0 ↔ ∀ s, documents s → s.Accepted reader

theorem prints_of_eq {result : Report × Disk} {output : String} {d : Disk}
    (h : result = (.done output, d)) : Prints output d result := by
  subst h
  exact ⟨rfl, rfl, rfl, rfl⟩

/-- What is asked for leaves no choice of the settings. -/
theorem asked_iff {settings wanted : Settings} {emit : List ArtifactKind}
    {direction : Option Direction} :
    Asked settings emit direction wanted ↔ wanted = override settings emit direction := by
  have hself : Asked settings emit direction (override settings emit direction) := by
    refine ⟨rfl, ?_, rfl⟩
    cases emit <;> rfl
  constructor
  · rintro ⟨hreader, hemit, hdirection⟩
    calc wanted = ⟨wanted.reader, wanted.emit, wanted.direction⟩ := rfl
      _ = ⟨settings.reader, if emit = [] then settings.emit else emit,
            direction.getD settings.direction⟩ := by rw [hreader, hemit, hdirection]
      _ = override settings emit direction := by cases emit <;> rfl
  · rintro rfl
    exact hself

/-- The file of a kind holds the text that the artifact has. -/
theorem Written.octets?_eq {before after : Disk} {folder stem : String} {kinds : List ArtifactKind}
    {a : Artifacts} (h : Written before after folder stem kinds a) {k : ArtifactKind}
    (hk : k ∈ kinds) {text : String} (htext : a.render? k = some text) :
    after.octets? (Path.join folder (k.fileName stem)) = some (Octets.ofText text) := by
  obtain ⟨other, hother, hheld⟩ := h.held k hk
  obtain rfl := Option.some.inj (hother.symm.trans htext)
  exact hheld

section Artifacts

variable {ready : Disk} {settings : Settings} {folder stem : String} {place : Place} {p : Process}

/-- The files are those of the artifacts that are asked for and made. -/
theorem mem_artifactFiles_iff {name : String} {octets : Octets} {a : Artifacts} :
    (name, octets) ∈ artifactFiles stem (texts settings a) ↔
      ∃ k ∈ settings.emit, ∃ text, a.render? k = some text ∧ k.fileName stem = name ∧
        Octets.ofText text = octets := by
  simp only [artifactFiles, List.mem_map, Prod.exists, mem_texts_iff, Prod.mk.injEq]
  constructor
  · rintro ⟨k, text, ⟨hk, htext⟩, hname, hoctets⟩
    exact ⟨k, hk, text, htext, hname, hoctets⟩
  · rintro ⟨k, hk, text, htext, hname, hoctets⟩
    exact ⟨k, text, ⟨hk, htext⟩, hname, hoctets⟩

theorem texts_eq_map {a : Artifacts} (rendered : ∀ k ∈ settings.emit, (a.render? k).isSome) :
    texts settings a = settings.emit.map fun k => (k, (a.render? k).getD "") := by
  rw [texts, ← List.filterMap_eq_map]
  apply List.filterMap_congr
  intro k hk
  obtain ⟨text, htext⟩ := Option.isSome_iff_exists.1 (rendered k hk)
  simp [htext]

/-- Artifacts are written where no folder has the name of one of their files. -/
theorem written_putAll (hstem : '/' ∉ stem.toList) (reaches : ready.Reaches folder place)
    (free : ∀ k ∈ settings.emit, ready.isFolder (place ++ [k.fileName stem]) = false) :
    Written ready (Disk.putAll place ready (artifactFiles stem (texts settings (settings.made p))))
      folder stem settings.emit (settings.made p) := by
  let files := artifactFiles stem (texts settings (settings.made p))
  -- One name is that of one kind, and its text is the one that was made.
  have single : ∀ name octets octets', (name, octets) ∈ files → (name, octets') ∈ files →
      octets = octets' := by
    intro name octets octets' h h'
    obtain ⟨k, -, text, htext, hname, rfl⟩ := mem_artifactFiles_iff.1 h
    obtain ⟨k', -, text', htext', hname', rfl⟩ := mem_artifactFiles_iff.1 h'
    obtain rfl : k = k' := ArtifactKind.fileName_injective stem (hname.trans hname'.symm)
    rw [Option.some.inj (htext.symm.trans htext')]
  have hfree : ∀ f ∈ files, ready.isFolder (place ++ [f.1]) = false := by
    intro f hf
    obtain ⟨k, hk, -, -, hname, -⟩ := mem_artifactFiles_iff.1 hf
    exact hname ▸ free k hk
  have hplace (k : ArtifactKind) : ready.place? (Path.join folder (k.fileName stem)) =
      some (place ++ [k.fileName stem]) := reaches.leads _ (k.isName_fileName hstem)
  refine ⟨fun k _ k' _ h => ArtifactKind.fileName_injective stem h, ?_, ?_⟩
  · intro k hk
    obtain ⟨text, htext⟩ := Settings.exists_render? hk p
    have hmem : (k.fileName stem, Octets.ofText text) ∈ files :=
      mem_artifactFiles_iff.2 ⟨k, hk, text, htext, rfl, rfl⟩
    refine ⟨text, htext, ?_⟩
    rw [Disk.octets?, Disk.place?_congr (Disk.isFolder_putAll hfree), hplace k, Option.bind_some,
      Disk.get?_putAll_of_mem single hmem]
  · intro other hother
    apply Disk.get?_putAll_of_ne
    intro f hf heq
    obtain ⟨k, hk, -, -, hname, -⟩ := mem_artifactFiles_iff.1 hf
    exact hother k hk (by rw [hplace k, heq, hname])

end Artifacts

section Batch

variable (settings : Settings) {sources : List Source}

/-- A summary of the outcomes of sources under different paths has each of them on one side. -/
theorem sorts_of_sources (d : Disk) (nodup : (sources.map Source.path).Nodup) :
    Sorts
      ({ status := if (summaryOf settings sources).failed.isEmpty then .success else .failure
         output := printedSummary (summaryOf settings sources) }, d)
      d settings.reader (· ∈ sources) (summaryOf settings sources) := by
  have hlists : (summaryOf settings sources).Lists settings.reader (· ∈ sources) :=
    Summary.lists_ofResults settings nodup
  -- A path in the summary is that of one source, since no two of them have the same.
  have hsame {s t : Source} (hs : s ∈ sources) (ht : t ∈ sources) (hpath : s.path = t.path) :
      s = t := List.inj_on_of_nodup_map nodup hs ht hpath
  have hfailed (s : Source) (hs : s ∈ sources) :
      s.path ∈ (summaryOf settings sources).failed.map Prod.fst ↔ ¬s.Accepted settings.reader := by
    rw [Source.not_accepted_iff, List.mem_map]
    constructor
    · rintro ⟨⟨path, message⟩, hmem, hpath⟩
      obtain ⟨t, ht, hpath', hrefused⟩ := (hlists.failed path message).1 hmem
      exact ⟨message, hsame ht hs (hpath'.trans hpath) ▸ hrefused⟩
    · rintro ⟨message, hrefused⟩
      exact ⟨(s.path, message), (hlists.failed s.path message).2 ⟨s, hs, rfl, hrefused⟩, rfl⟩
  refine ⟨rfl, rfl, hlists, ?_, hfailed, ?_⟩
  · intro s hs
    rw [hlists.compiled]
    constructor
    · rintro ⟨t, ht, hpath, haccepted⟩
      exact hsame ht hs hpath ▸ haccepted
    · exact fun haccepted => ⟨s, hs, rfl, haccepted⟩
  · have hnil : (summaryOf settings sources).failed = [] ↔
        ∀ s ∈ sources, s.Accepted settings.reader := by
      rw [List.eq_nil_iff_forall_not_mem]
      constructor
      · intro hnone s hs
        by_contra hrefused
        obtain ⟨f, hf, -⟩ := List.mem_map.1 ((hfailed s hs).2 hrefused)
        exact hnone f hf
      · rintro haccepted ⟨path, message⟩ hmem
        obtain ⟨s, hs, -, hrefused⟩ := (hlists.failed path message).1 hmem
        exact Source.not_accepted_iff.2 ⟨message, hrefused⟩ (haccepted s hs)
    rw [← hnil, ← List.isEmpty_iff]
    cases (summaryOf settings sources).failed.isEmpty <;> simp [ExitStatus.code]

end Batch

theorem furnished_of_prepared? {d ready : Disk} {c : Command} (h : c.prepared? d = some ready) :
    d.Furnished ready := by
  have hself (h : some d = some ready) : d.Furnished ready := by
    obtain rfl := Option.some.inj h
    exact .refl d
  cases c with
  | compile file emit direction outFolder =>
    cases outFolder with
    | none => exact hself h
    | some folder => exact Disk.furnished_of_makeFolder? h
  | check file => exact hself h
  | simulate file vars => exact hself h
  | batch folder => exact hself h

section Document

variable {d : Disk} {settings : Settings} {file text : String} (readable : d.read? file = some text)

include readable

/-- Every command refuses a document that is not accepted, and all that it leaves is the folder. -/
theorem run_of_error {fault : Failure} (refused : acceptProcess settings.reader text = .error fault)
    (jobs stages : Schedule) {c : Command} {ready : Disk} (document : c.document? = some file)
    (prepared : c.prepared? d = some ready) :
    (c.run Disk.files settings jobs stages).run d = (.refused fault, ready) := by
  cases c with
  | check file =>
    obtain rfl := Option.some.inj document
    obtain rfl := Option.some.inj prepared
    exact (run_check settings readable).trans (by rw [refused])
  | compile file emit direction outFolder =>
    obtain rfl := Option.some.inj document
    have hrefused : acceptProcess (override settings emit direction).reader text = .error fault :=
      refused
    -- A folder for artifacts is made before the document is read, and leaves the files as they are.
    cases outFolder with
    | none =>
      obtain rfl := Option.some.inj prepared
      exact run_compile_of_error readable hrefused stages none
    | some folder =>
      have hread : ready.read? file = some text :=
        (Disk.furnished_of_makeFolder? prepared).read? readable
      exact (run_withFolder prepared _).trans
        (run_compile_of_error hread hrefused stages (some folder))
  | simulate file vars =>
    obtain rfl := Option.some.inj document
    obtain rfl := Option.some.inj prepared
    exact (run_simulate settings readable vars).trans (by rw [refused])
  | batch folder => simp [Command.document?] at document

/-- Into a folder that could be made, with nothing in the way, all artifacts of an accepted document
are written. -/
theorem exists_written {p : Process} (accepted : acceptProcess settings.reader text = .ok p)
    (stages : Schedule) {folder : String} {ready : Disk} (made : d.makeFolder? folder = some ready)
    (writable : ∀ k ∈ settings.emit, ready.Writable (Path.join folder (k.fileName (stem file)))) :
    ∃ after, (withFolder Disk.files (some folder)
          (compile Disk.files settings stages file (some folder))).run d = (.done "", after) ∧
      Written ready after folder (stem file) settings.emit (settings.made p) := by
  have hread : ready.read? file = some text := (Disk.furnished_of_makeFolder? made).read? readable
  have hstem := slashless_stem file
  obtain ⟨place, reaches⟩ := Disk.exists_reaches made
  have hfree : ∀ k ∈ settings.emit, ready.isFolder (place ++ [k.fileName (stem file)]) = false := by
    intro k hk
    obtain ⟨other, hother, hfree⟩ := writable k hk
    rw [reaches.leads _ (k.isName_fileName hstem)] at hother
    exact Option.some.inj hother ▸ hfree
  refine ⟨_, ?_, written_putAll hstem reaches hfree⟩
  rw [run_withFolder made, run_compile_some hread accepted]
  apply run_writeAll hstem reaches.leads
  intro k text hmem
  exact hfree k (mem_texts_iff.1 hmem).1

theorem delivers_of_ok {p : Process} (accepted : acceptProcess settings.reader text = .ok p)
    (jobs stages : Schedule) (emit : List ArtifactKind) (direction : Option Direction) :
    Delivers
      (fun folder => (Command.run Disk.files settings jobs stages
        (.compile file emit direction folder)).run d)
      d (stem file) (override settings emit direction).emit
      ((override settings emit direction).made p) := by
  let wanted := override settings emit direction
  have hmade : acceptProcess wanted.reader text = .ok p := accepted
  have rendered : ∀ k ∈ wanted.emit, ((wanted.made p).render? k).isSome := fun k hk =>
    Option.isSome_iff_exists.2 (Settings.exists_render? hk p)
  refine ⟨rendered, ?_, ?_⟩
  · have hrun := run_compile_none readable hmade stages
    rw [texts_eq_map rendered, List.map_map] at hrun
    exact prints_of_eq hrun
  · intro folder ready made writable
    obtain ⟨after, hrun, hwritten⟩ := exists_written readable hmade stages made writable
    exact ⟨after, prints_of_eq hrun, hwritten⟩

theorem serves_of_ok {p : Process} (accepted : acceptProcess settings.reader text = .ok p)
    (jobs stages : Schedule) :
    Serves (fun c => (c.run Disk.files settings jobs stages).run d) d settings file text p := by
  have hsimulate (vars : Bindings) := run_simulate settings readable vars
  rw [accepted] at hsimulate
  dsimp only at hsimulate
  constructor
  · have hrun := run_check settings readable
    rw [accepted] at hrun
    exact prints_of_eq hrun
  · intro emit direction
    exact ⟨override settings emit direction, _, asked_iff.2 rfl,
      Settings.compile_eq_ok_iff.2 ⟨p, accepted, rfl⟩,
      delivers_of_ok readable accepted jobs stages emit direction⟩
  · intro vars pairs hpairs
    have hrun := hsimulate vars
    rw [hpairs] at hrun
    exact prints_of_eq hrun
  · intro vars fault hfault
    have hrun := hsimulate vars
    rw [hfault] at hrun
    exact ⟨congrArg (fun r => r.1.status.code) hrun, congrArg (fun r => r.1.output) hrun,
      congrArg Prod.snd hrun⟩

end Document

/-- A batch of a folder sorts the documents that are in it. -/
theorem exists_sorts {d : Disk} (named : d.WellNamed) (settings : Settings) (jobs stages : Schedule)
    {folder : String} {place : Place} (hplace : (d.place? folder).filter d.isFolder = some place) :
    ∃ summary, Sorts (((Command.batch folder).run Disk.files settings jobs stages).run d) d
      settings.reader (d.HasDocument folder place) summary := by
  obtain ⟨sources, hsources, hdocuments, nodup⟩ := Disk.exists_sources named hplace
  have hpaths : (sources.map Source.path).Nodup := by
    apply List.Nodup.of_map Path.ofText
    rw [List.map_map]
    exact nodup
  have hmem : d.HasDocument folder place = (· ∈ sources) :=
    funext fun s => propext (hdocuments s).symm
  refine ⟨summaryOf settings sources, ?_⟩
  rw [hmem, Command.run, run_batch hsources jobs stages]
  exact sorts_of_sources settings d hpaths

/-- The commands agree on a document. Where its text is not accepted, each of them that is given it
ends with the number for the fault, prints nothing and leaves no file, and no folder but the one
that it was told to make; making a folder that is there changes nothing. Where it is accepted, they
serve it. A batch lists a document of its folder as compiled if and only if its text is accepted, so
the document itself if that is in the folder, and any other one with its text. Names are names on
every disk that is `Disk.Reached`. -/
theorem commands_agree {d : Disk} (named : d.WellNamed) {config : Option String}
    {reader : Option Reader} {settings : Settings}
    (configured : d.settings? config reader = some settings) {file text : String}
    (readable : d.read? file = some text) (verbose : Bool) (jobs stages : Schedule) :
    let result (c : Command) : Report × Disk :=
      (Invocation.run Disk.files jobs stages ⟨config, reader, verbose, c⟩).run d
    let verdict := acceptProcess settings.reader text
    (∀ (c : Command) ready, c.prepared? d = some ready → d.Furnished ready) ∧
      (∀ folder place, (d.place? folder).filter d.isFolder = some place →
        d.makeFolder? folder = some d) ∧
      (∀ (c : Command) ready, c.document? = some file → c.prepared? d = some ready →
        (∀ cause, verdict = .error (.malformed cause) → Stops 2 ready (result c)) ∧
        (∀ breach, verdict = .error (.violation breach) → Stops 3 ready (result c)) ∧
        ∀ cause, verdict ≠ .error (.condition cause)) ∧
      (∀ p, verdict = .ok p → Serves result d settings file text p) ∧
      ∀ folder place, (d.place? folder).filter d.isFolder = some place → ∃ summary,
        Sorts (result (.batch folder)) d settings.reader (d.HasDocument folder place) summary ∧
        ∀ s, d.HasDocument folder place s → s.path = file ∨ s.text = some text →
          (s.path ∈ summary.compiled ↔ ∃ p, verdict = .ok p) := by
  intro result verdict
  have hresult : result = fun c => (c.run Disk.files settings jobs stages).run d :=
    funext (run_invocation configured verbose jobs stages)
  rw [hresult]
  refine ⟨?_, fun folder place => Disk.makeFolder?_eq_self, ?_, ?_, ?_⟩
  · exact fun c ready => furnished_of_prepared?
  · intro c ready document prepared
    have hrefused {fault : Failure} (h : verdict = .error fault) :=
      run_of_error readable h jobs stages document prepared
    refine ⟨?_, ?_, acceptProcess_ne_condition⟩
    · intro cause hverdict
      dsimp only
      rw [hrefused hverdict]
      exact ⟨rfl, rfl, rfl⟩
    · intro breach hverdict
      dsimp only
      rw [hrefused hverdict]
      exact ⟨rfl, rfl, rfl⟩
  · intro p accepted
    exact serves_of_ok readable accepted jobs stages
  · intro folder place hplace
    obtain ⟨summary, hsorts⟩ := exists_sorts named settings jobs stages hplace
    refine ⟨summary, hsorts, fun s hs hsame => ?_⟩
    have htext : s.text = some text := by
      rcases hsame with rfl | htext
      · rw [hs.text_eq named hplace, readable]
      · exact htext
    rw [hsorts.compiled s hs, Source.Accepted]
    simp [htext, verdict]

/-- A process with a task and an end. -/
def shortDocument : String :=
  "process:\n  name: n\n  steps:\n    - id: a\n      type: task\n      actor: x\n      next: e\n" ++
    "    - id: e\n      type: end\n"

/-- A folder with a document that is accepted and one that is empty, and a folder with an earlier
artifact. -/
def shortDisk : Disk :=
  ⟨⟨[(["docs"], .folder), (["docs", "a.yaml"], .file (Octets.ofText shortDocument)),
    (["docs", "b.pdl"], .file []), (["out"], .folder), (["out", "a.py"], .file [0xff])],
    by decide⟩⟩

theorem wellNamed_shortDisk : shortDisk.WellNamed := by decide +kernel

theorem hasDocument_shortDisk {s : Source} :
    shortDisk.HasDocument "docs" ["docs"] s ↔
      s = ⟨"docs/a.yaml", some shortDocument⟩ ∨ s = ⟨"docs/b.pdl", some ""⟩ := by
  have hdocs : (shortDisk.place? "docs").filter shortDisk.isFolder = some ["docs"] := by
    decide +kernel
  have hsources : shortDisk.sources? "docs" =
      some [⟨"docs/a.yaml", some shortDocument⟩, ⟨"docs/b.pdl", some ""⟩] := by decide +kernel
  rw [Disk.hasDocument_iff wellNamed_shortDisk hdocs hsources]
  simp

theorem commands_agree_short :
    let result (c : Command) : Report × Disk :=
      (Invocation.run Disk.files .asStarted .asStarted ⟨none, some .minimal, false, c⟩).run
        shortDisk
    let code := "def run(context):\n    next_step = None\n    # a (task)\n    # actor: x\n" ++
      "    next_step = 'e'\n    yield 'a', next_step\n    # e (end)\n    next_step = None\n" ++
      "    yield 'e', next_step"
    let diagram := "flowchart TD\na[task]\ne[end]\na --> e"
    shortDisk.WellNamed ∧ shortDisk.settings? none (some .minimal) = some { reader := .minimal } ∧
      shortDisk.read? "docs/a.yaml" = some shortDocument ∧
      Prints "docs/a.yaml: ok (2 steps)\n" shortDisk (result (.check "docs/a.yaml")) ∧
      Prints "a -> e\ne -> -\n" shortDisk (result (.simulate "docs/a.yaml" [])) ∧
      Prints ("=== python ===\n" ++ code ++ "\n\n=== mermaid ===\n" ++ diagram ++ "\n\n") shortDisk
        (result (.compile "docs/a.yaml" [.python, .mermaid] none none)) ∧
      (∃ after,
        Prints "" after (result (.compile "docs/a.yaml" [.python, .mermaid] none (some "out"))) ∧
        after.octets? "out/a.py" = some (Octets.ofText code) ∧
        after.octets? "out/a.mmd" = some (Octets.ofText diagram) ∧
        after.entries.get? ["docs", "b.pdl"] = some (.file [])) ∧
      Stops 2 shortDisk (result (.compile "docs/b.pdl" [.python] none (some "out"))) ∧
      (result (.batch "docs")).1.output =
        "ok      docs/a.yaml\nFAILED  docs/b.pdl: syntax error: root must be a mapping\n" ∧
      (result (.batch "docs")).1.status.code ≠ 0 := by
  intro result code diagram
  let p : Process := ⟨"n", [{ id := "a", kind := .task, actor := some "x", next := some "e" },
    { id := "e", kind := .finish }]⟩
  have configured : shortDisk.settings? none (some .minimal) = some { reader := .minimal } := rfl
  have readable : shortDisk.read? "docs/a.yaml" = some shortDocument := by decide +kernel
  have empty : shortDisk.read? "docs/b.pdl" = some "" := by decide +kernel
  have accepted : acceptProcess .minimal shortDocument = .ok p := by decide +kernel
  have refused : acceptProcess .minimal "" = .error (.malformed .rootNotMapping) := by
    decide +kernel
  have hout : (shortDisk.place? "out").filter shortDisk.isFolder = some ["out"] := by
    decide +kernel
  have hdocs : (shortDisk.place? "docs").filter shortDisk.isFolder = some ["docs"] := by
    decide +kernel
  obtain ⟨-, hmake, -, hserves, hbatch⟩ :=
    commands_agree wellNamed_shortDisk configured readable false .asStarted .asStarted
  obtain ⟨-, -, hrefuses, -, -⟩ :=
    commands_agree wellNamed_shortDisk configured empty false .asStarted .asStarted
  have hsame := hmake "out" ["out"] hout
  obtain ⟨hchecked, hcompiled, hsimulated, -⟩ := hserves p accepted
  obtain ⟨summary, hsorts, -⟩ := hbatch "docs" ["docs"] hdocs
  have hsummary := hsorts.listed.eq
    (Summary.lists_pair (fun _ => hasDocument_shortDisk) ⟨_, p, rfl, accepted⟩ ⟨_, refused, rfl⟩)
  obtain ⟨wanted, a, hasked, hcompile, hdelivers⟩ := hcompiled [.python, .mermaid] none
  obtain rfl := asked_iff.1 hasked
  let made : Artifacts := { process := p, python := some code, mermaid := some diagram }
  have hmade : (override { reader := .minimal } [.python, .mermaid] none).compile shortDocument =
      .ok made := by decide +kernel
  obtain rfl : a = made := Except.ok.inj (hcompile.symm.trans hmade)
  refine ⟨wellNamed_shortDisk, configured, readable, ?_, ?_, ?_, ?_, ?_, ?_, ?_⟩
  · have hline : "docs/a.yaml" ++ ": ok (" ++ toString p.steps.length ++ " steps)\n" =
        "docs/a.yaml: ok (2 steps)\n" := by decide +kernel
    exact hline ▸ hchecked
  · exact hsimulated [] [⟨"a", some "e"⟩, ⟨"e", none⟩] (by decide +kernel)
  · have hlines : String.join ([.python, .mermaid].map fun k : ArtifactKind =>
        "=== " ++ k.name ++ " ===\n" ++ (made.render? k).getD "" ++ "\n\n") =
          "=== python ===\n" ++ code ++ "\n\n=== mermaid ===\n" ++ diagram ++ "\n\n" := by
      decide +kernel
    exact hlines ▸ hdelivers.printed
  · have writable : ∀ k ∈ [ArtifactKind.python, .mermaid],
        shortDisk.Writable (Path.join "out" (k.fileName (stem "docs/a.yaml"))) := by
      simp only [List.forall_mem_cons]
      exact ⟨⟨["out", "a.py"], by decide +kernel, by decide +kernel⟩,
        ⟨["out", "a.mmd"], by decide +kernel, by decide +kernel⟩, by simp⟩
    obtain ⟨after, hprints, hwritten⟩ := hdelivers.written "out" shortDisk hsame writable
    have hpython : after.octets? "out/a.py" = some (Octets.ofText code) :=
      hwritten.octets?_eq (k := .python) (by decide) rfl
    have hmermaid : after.octets? "out/a.mmd" = some (Octets.ofText diagram) :=
      hwritten.octets?_eq (k := .mermaid) (by decide) rfl
    refine ⟨after, hprints, hpython, hmermaid, ?_⟩
    rw [hwritten.frame ["docs", "b.pdl"] (by decide +kernel)]
    decide +kernel
  · exact (hrefuses (.compile "docs/b.pdl" [.python] none (some "out")) shortDisk rfl hsame).1
      .rootNotMapping refused
  · rw [hsorts.output, hsummary]
    decide +kernel
  · intro hzero
    obtain ⟨text, p, htext, haccept⟩ := hsorts.code.1 hzero _ (hasDocument_shortDisk.2 (Or.inr rfl))
    obtain rfl := Option.some.inj htext
    rw [refused] at haccept
    simp at haccept

end CommandLine

end Workflow
