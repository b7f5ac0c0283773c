import Workflow.Proofs.Catalog.Attempts
import Workflow.Proofs.Catalog.Summary
import Workflow.Proofs.Disk
import Mathlib.Data.List.Nodup
import Mathlib.Data.List.Sort
/-!
Compiling a folder is taking its documents in one by one, in any order: the catalog ends with the
same artifacts and failures, and the summary lists each document where the catalog has it.
-/

namespace Workflow

namespace Catalog

/-- A document is told by its extension, which is not all of its name. -/
theorem isSourceName_iff {name : String} (h : Path.IsName name) :
    isSourceName name = true ↔
      ∃ stem ending, stem ≠ "" ∧ ending ∈ sourceExtensions ∧ name = stem ++ "." ++ ending := by
  have hdotless : ∀ ending ∈ sourceExtensions, '.' ∉ ending.toList := by decide
  rw [isSourceName, Option.any_eq_true]
  constructor
  · rintro ⟨ending, hext, hmem⟩
    have hending : ending ∈ sourceExtensions := by simpa using hmem
    obtain ⟨stem, hstem, hname⟩ := (h.extension?_eq_some_iff (hdotless ending hending)).1 hext
    exact ⟨stem, ending, hstem, hending, hname⟩
  · rintro ⟨stem, ending, hstem, hending, hname⟩
    refine ⟨ending, ?_, by simpa using hending⟩
    exact (h.extension?_eq_some_iff (hdotless ending hending)).2 ⟨stem, hstem, hname⟩

end Catalog

namespace Disk

/-- A document directly in the folder at `place`: a file with one of the extensions, and its text if
its octets are one. -/
def HasDocument (d : Disk) (folder : String) (place : Place) (s : Source) : Prop :=
  ∃ stem ending octets, stem ≠ "" ∧ ending ∈ ["yaml", "yml", "pdl"] ∧
    d.entries.get? (place ++ [stem ++ "." ++ ending]) = some (.file octets) ∧
    s = ⟨Path.join folder (stem ++ "." ++ ending), Octets.text? octets⟩

theorem place?_eq_some {d : Disk} {folder : String} {place : Place}
    (h : (d.place? folder).filter d.isFolder = some place) :
    d.place? folder = some place ∧ d.isFolder place = true := by
  simpa [Option.filter_eq_some_iff] using h

theorem ne_empty_of_place? {d : Disk} {folder : String} {place : Place}
    (h : d.place? folder = some place) :
    folder ≠ "" := by
  rintro rfl
  simp [place?, isRelative] at h

/-- The sources that are read from a folder are its documents. -/
theorem exists_sources {d : Disk} (named : d.WellNamed) {folder : String} {place : Place}
    (h : (d.place? folder).filter d.isFolder = some place) :
    ∃ sources, d.sources? folder = some sources ∧
      (∀ s, s ∈ sources ↔ d.HasDocument folder place s) ∧
      (sources.map fun s => Path.ofText s.path).Nodup := by
  obtain ⟨hplace, hfolder⟩ := place?_eq_some h
  let names := d.entries.entries.filterMap (nameIn? place)
  have hnames : ∀ name ∈ names, Path.IsName name := by
    intro name hname
    obtain ⟨octets, hfile⟩ := mem_names_iff.1 hname
    exact named.isName hfile
  refine ⟨(names.filter Catalog.isSourceName).map (d.source folder), ?_, ?_, ?_⟩
  · rw [sources?, list?_eq, h]
    rfl
  · intro s
    rw [List.mem_map]
    constructor
    · rintro ⟨name, hname, rfl⟩
      obtain ⟨hmem, hsource⟩ := List.mem_filter.1 hname
      obtain ⟨octets, hfile⟩ := mem_names_iff.1 hmem
      have hread := read?_join hplace hfolder (hnames name hmem) hfile
      obtain ⟨stem, ending, hstem, hending, rfl⟩ :=
        (Catalog.isSourceName_iff (hnames name hmem)).1 hsource
      exact ⟨stem, ending, octets, hstem, hending, hfile, by rw [source, hread]⟩
    · rintro ⟨stem, ending, octets, hstem, hending, hfile, rfl⟩
      have hname : Path.IsName (stem ++ "." ++ ending) := named.isName hfile
      refine ⟨stem ++ "." ++ ending, List.mem_filter.2 ⟨mem_names_iff.2 ⟨octets, hfile⟩, ?_⟩, ?_⟩
      · exact (Catalog.isSourceName_iff hname).2 ⟨stem, ending, hstem, hending, rfl⟩
      · rw [source, read?_join hplace hfolder hname hfile]
  · rw [List.map_map, List.Nodup, List.pairwise_map]
    have hnodup : (names.filter Catalog.isSourceName).Nodup := (nodup_names d place).filter _
    -- Different names are different paths.
    apply hnodup.imp_of_mem
    intro a b ha hb hne heq
    exact hne (Path.ofText_join_injective (ne_empty_of_place? hplace)
      (hnames a (List.mem_filter.1 ha).1) (hnames b (List.mem_filter.1 hb).1) heq)

theorem hasDocument_iff {d : Disk} (named : d.WellNamed) {folder : String} {place : Place}
    (h : (d.place? folder).filter d.isFolder = some place) {sources : List Source}
    (hsources : d.sources? folder = some sources) (s : Source) :
    d.HasDocument folder place s ↔ s ∈ sources := by
  obtain ⟨others, hothers, hdocuments, -⟩ := exists_sources named h
  obtain rfl := Option.some.inj (hothers.symm.trans hsources)
  exact (hdocuments s).symm

theorem sources?_eq_none {d : Disk} {folder : String}
    (h : (d.place? folder).filter d.isFolder = none) :
    d.sources? folder = none := by
  rw [sources?, list?_eq, h]
  rfl

end Disk

namespace Catalog

/-- The same settings, and the same artifacts and failures under every path. -/
structure Same (c e : Catalog) : Prop where
  settings : c.settings = e.settings
  entries : c.entries.entries.Perm e.entries.entries
  failures : c.failures.entries.Perm e.failures.entries

/-- Catalogs with the same settings are the same if they say the same of every path. -/
theorem same_iff_answer {c e : Catalog} :
    c.Same e ↔ c.settings = e.settings ∧ ∀ path, c.answer path = e.answer path := by
  constructor
  · rintro ⟨hsettings, hentries, hfailures⟩
    refine ⟨hsettings, ?_⟩
    intro path
    have hget : c.get? path = e.get? path := Table.get?_eq_of_perm hentries path
    have hfailure : c.failure? path = e.failure? path := Table.get?_eq_of_perm hfailures path
    rw [answer, answer, hget, hfailure]
  · rintro ⟨hsettings, hanswer⟩
    refine ⟨hsettings, Table.perm_of_get?_eq ?_, Table.perm_of_get?_eq ?_⟩
    · intro path
      exact congrArg Prod.fst (hanswer path)
    · intro path
      exact congrArg Prod.snd (hanswer path)

/-- Takes a source in by itself: registers its text, or stores why there is none. -/
def takeIn (stages : Schedule) (c : Catalog) (s : Source) : Catalog :=
  match s.text with
  | some text => (c.register stages (Path.ofText s.path) text).1
  | none =>
    let unread := "Failed to read " ++ s.path ++ ": stream did not contain valid UTF-8"
    c.store (Path.ofText s.path) (.error unread)

theorem takeIn_eq_store (stages : Schedule) (c : Catalog) (s : Source) :
    c.takeIn stages s = c.store (Path.ofText s.path) (s.verdict c.settings) := by
  rw [takeIn, Source.verdict]
  cases s.text with
  | none => rfl
  | some text =>
    have houtcome := Settings.outcome_eq_verdict c.settings stages text
    exact congrArg (c.store (Path.ofText s.path)) houtcome

theorem foldl_takeIn_eq_record (stages : Schedule) (c : Catalog) (sources : List Source) :
    sources.foldl (takeIn stages) c = c.record (sources.map (attempt c.settings)) := by
  induction sources generalizing c with
  | nil => rfl
  | cons s rest ih =>
    rw [List.foldl_cons, ih, takeIn_eq_store, settings_store]
    rfl

end Catalog

namespace Source

def Accepted (reader : Reader) (s : Source) : Prop :=
  ∃ text p, s.text = some text ∧ acceptProcess reader text = .ok p

/-- A source that is not accepted, and what is said of it. -/
def Refused (reader : Reader) (s : Source) (message : String) : Prop :=
  match s.text with
  | none => message = "Failed to read " ++ s.path ++ ": stream did not contain valid UTF-8"
  | some text => ∃ fault, acceptProcess reader text = .error fault ∧ fault.message = message

theorem not_accepted_iff {reader : Reader} {s : Source} :
    ¬s.Accepted reader ↔ ∃ message, s.Refused reader message := by
  rw [Accepted]
  cases htext : s.text with
  | none => simp [Refused, htext]
  | some text => cases haccept : acceptProcess reader text <;> simp [Refused, htext, haccept]

/-- One thing is said of a source that is not accepted. -/
theorem Refused.unique {reader : Reader} {s : Source} {message other : String}
    (h : s.Refused reader message) (h' : s.Refused reader other) : message = other := by
  cases htext : s.text with
  | none =>
    simp only [Refused, htext] at h h'
    exact h.trans h'.symm
  | some text =>
    simp only [Refused, htext] at h h'
    obtain ⟨fault, hfault, rfl⟩ := h
    obtain ⟨fault', hfault', rfl⟩ := h'
    rw [Except.error.inj (hfault.symm.trans hfault')]

variable {settings : Settings} {s : Source}

theorem exists_verdict_eq_ok_iff :
    (∃ a, s.verdict settings = .ok a) ↔ s.Accepted settings.reader := by
  rw [verdict, Accepted]
  cases s.text with
  | none => simp
  | some text =>
    simp only [Option.some.injEq, exists_and_left, exists_eq_left', Settings.verdict,
      Settings.compile_eq_map]
    cases acceptProcess settings.reader text with
    | error fault => simp [Except.map, Except.mapError]
    | ok p => simp [Except.map, Except.mapError]

/-- What a refused source comes to is the message that its refusal carries. -/
theorem verdict_eq_error_iff {message : String} :
    s.verdict settings = .error message ↔ s.Refused settings.reader message := by
  rw [verdict, Refused]
  cases s.text with
  | none => simp [unreadMessage, eq_comm]
  | some text =>
    dsimp only
    rw [Settings.verdict, Settings.compile_eq_map]
    cases acceptProcess settings.reader text with
    | error fault => simp [Except.map, Except.mapError]
    | ok p => simp [Except.map, Except.mapError]

end Source

/-- A summary lists documents in ascending order and without repeats: those that are accepted, and
the others with what is said of them. The documents lie in one folder, so the order of the texts of
their paths is that of their names. -/
structure Summary.Lists (s : Summary) (reader : Reader) (documents : Source → Prop) : Prop where
  compiled_ascending : s.compiled.Pairwise (· < ·)
  failed_ascending : (s.failed.map Prod.fst).Pairwise (· < ·)
  compiled : ∀ path, path ∈ s.compiled ↔
    ∃ source, documents source ∧ source.path = path ∧ source.Accepted reader
  failed : ∀ path message, (path, message) ∈ s.failed ↔
    ∃ source, documents source ∧ source.path = path ∧ source.Refused reader message

/-- A summary of sources tells what a catalog says of them: in ascending order and without repeats,
each of them on one side, and those that failed with their messages. The sources lie in one folder,
so the order of the texts of their paths is that of their names. -/
structure Summary.Reports (s : Summary) (sources : List Source) (c : Catalog) : Prop where
  compiled_ascending : s.compiled.Pairwise (· < ·)
  failed_ascending : (s.failed.map Prod.fst).Pairwise (· < ·)
  disjoint : s.compiled.Disjoint (s.failed.map Prod.fst)
  covers : ∀ path, path ∈ s.compiled ∨ path ∈ s.failed.map Prod.fst ↔ path ∈ sources.map Source.path
  compiled : ∀ path, path ∈ s.compiled ↔ path ∈ sources.map Source.path ∧
    ∃ a, c.get? (Path.ofText path) = some a ∧ c.failure? (Path.ofText path) = none
  failed : ∀ path message, (path, message) ∈ s.failed ↔ path ∈ sources.map Source.path ∧
    c.get? (Path.ofText path) = none ∧ c.failure? (Path.ofText path) = some message

namespace Summary

/-- There is one summary that lists some documents. -/
theorem Lists.eq {s t : Summary} {reader : Reader} {documents : Source → Prop}
    (hs : s.Lists reader documents) (ht : t.Lists reader documents) : s = t := by
  have hcompiled : s.compiled = t.compiled := by
    apply hs.compiled_ascending.eq_of_mem_iff ht.compiled_ascending
    intro path
    rw [hs.compiled, ht.compiled]
  have hfailed : s.failed = t.failed := by
    have : Std.Irrefl fun a b : String × String => a.1 < b.1 := ⟨fun a => lt_irrefl a.1⟩
    have : Std.Antisymm fun a b : String × String => a.1 < b.1 :=
      ⟨fun a b hab hba => absurd hba (lt_asymm hab)⟩
    apply (List.pairwise_map.1 hs.failed_ascending).eq_of_mem_iff
      (List.pairwise_map.1 ht.failed_ascending)
    rintro ⟨path, message⟩
    rw [hs.failed, ht.failed]
  calc s = ⟨s.compiled, s.failed⟩ := rfl
    _ = ⟨t.compiled, t.failed⟩ := by rw [hcompiled, hfailed]
    _ = t := rfl

theorem lists_pair {reader : Reader} {documents : Source → Prop} {a b : Source} {message : String}
    (h : ∀ s, documents s ↔ s = a ∨ s = b) (accepted : a.Accepted reader)
    (refused : b.Refused reader message) :
    (⟨[a.path], [(b.path, message)]⟩ : Summary).Lists reader documents := by
  have hb : ¬b.Accepted reader := Source.not_accepted_iff.2 ⟨message, refused⟩
  refine ⟨List.pairwise_singleton _ _, List.pairwise_singleton _ _, ?_, ?_⟩
  · intro path
    rw [List.mem_singleton]
    constructor
    · rintro rfl
      exact ⟨a, (h a).2 (Or.inl rfl), rfl, accepted⟩
    · rintro ⟨s, hs, rfl, haccepted⟩
      rcases (h s).1 hs with rfl | rfl
      · rfl
      · exact absurd haccepted hb
  · intro path other
    rw [List.mem_singleton, Prod.mk.injEq]
    constructor
    · rintro ⟨rfl, rfl⟩
      exact ⟨b, (h b).2 (Or.inr rfl), rfl, refused⟩
    · rintro ⟨s, hs, rfl, hrefused⟩
      rcases (h s).1 hs with rfl | rfl
      · exact absurd accepted (Source.not_accepted_iff.2 ⟨other, hrefused⟩)
      · exact ⟨rfl, hrefused.unique refused⟩

/-- The summary of what sources come to lists these sources, if their paths differ. -/
theorem lists_ofResults (settings : Settings) {sources : List Source}
    (nodup : (sources.map Source.path).Nodup) :
    (ofResults (sources.map fun s => (s.path, s.verdict settings))).Lists settings.reader
      (· ∈ sources) := by
  have hpaths : ((sources.map fun s => (s.path, s.verdict settings)).map Prod.fst).Nodup := by
    rw [List.map_map]
    exact nodup
  refine ⟨compiled_pairwise_lt hpaths, failed_pairwise_lt hpaths, ?_, ?_⟩
  · intro path
    simp only [mem_compiled_iff, ← Source.exists_verdict_eq_ok_iff, List.mem_map, Prod.mk.injEq]
    constructor
    · rintro ⟨a, s, hs, hpath, hverdict⟩
      exact ⟨s, hs, hpath, a, hverdict⟩
    · rintro ⟨s, hs, hpath, a, hverdict⟩
      exact ⟨a, s, hs, hpath, hverdict⟩
  · intro path message
    simp only [mem_failed_iff, ← Source.verdict_eq_error_iff, List.mem_map, Prod.mk.injEq]

section Answers

variable {settings : Settings} {sources : List Source} {c : Catalog}
  (h : ∀ s ∈ sources, c.answer (Path.ofText s.path) = Catalog.answerOf (some (s.verdict settings)))

include h

/-- A source is listed among those that compiled exactly if the catalog has artifacts for it and no
failure. -/
theorem mem_compiled_iff_of_answers (path : String) :
    path ∈ (ofResults (sources.map fun s => (s.path, s.verdict settings))).compiled ↔
      path ∈ sources.map Source.path ∧
        ∃ a, c.get? (Path.ofText path) = some a ∧ c.failure? (Path.ofText path) = none := by
  rw [mem_compiled_iff]
  constructor
  · rintro ⟨a, hmem⟩
    obtain ⟨s, hs, heq⟩ := List.mem_map.1 hmem
    obtain ⟨rfl, hverdict⟩ := Prod.mk.inj heq
    have hanswer := h s hs
    rw [hverdict] at hanswer
    exact ⟨List.mem_map_of_mem hs, a, congrArg Prod.fst hanswer, congrArg Prod.snd hanswer⟩
  · rintro ⟨hpath, a, hget, -⟩
    obtain ⟨s, hs, rfl⟩ := List.mem_map.1 hpath
    have hverdict := Option.some.inj ((Catalog.get?_eq_some_of_answer (h s hs)).1 hget)
    exact ⟨a, List.mem_map.2 ⟨s, hs, by rw [hverdict]⟩⟩

/-- A source is listed with a message exactly if the catalog has this failure for it and no
artifacts. -/
theorem mem_failed_iff_of_answers (path message : String) :
    (path, message) ∈ (ofResults (sources.map fun s => (s.path, s.verdict settings))).failed ↔
      path ∈ sources.map Source.path ∧
        c.get? (Path.ofText path) = none ∧ c.failure? (Path.ofText path) = some message := by
  rw [mem_failed_iff]
  constructor
  · intro hmem
    obtain ⟨s, hs, heq⟩ := List.mem_map.1 hmem
    obtain ⟨rfl, hverdict⟩ := Prod.mk.inj heq
    have hanswer := h s hs
    rw [hverdict] at hanswer
    exact ⟨List.mem_map_of_mem hs, congrArg Prod.fst hanswer, congrArg Prod.snd hanswer⟩
  · rintro ⟨hpath, -, hfailure⟩
    obtain ⟨s, hs, rfl⟩ := List.mem_map.1 hpath
    have hverdict := Option.some.inj ((Catalog.failure?_eq_some_of_answer (h s hs)).1 hfailure)
    exact List.mem_map.2 ⟨s, hs, by rw [hverdict]⟩

/-- If a catalog says of each source what came of it, the summary of the sources reports that. -/
theorem reports_of_answers (nodup : (sources.map Source.path).Nodup) :
    (ofResults (sources.map fun s => (s.path, s.verdict settings))).Reports sources c := by
  have hcompiled := mem_compiled_iff_of_answers h
  have hfailed := mem_failed_iff_of_answers h
  have hpaths : ((sources.map fun s => (s.path, s.verdict settings)).map Prod.fst).Nodup := by
    rw [List.map_map]
    exact nodup
  refine ⟨compiled_pairwise_lt hpaths, failed_pairwise_lt hpaths, ?_, ?_, hcompiled, hfailed⟩
  · -- A path on both sides would have artifacts and have none.
    intro path hleft hright
    obtain ⟨⟨path, message⟩, hmem, rfl⟩ := List.mem_map.1 hright
    obtain ⟨-, a, hget, -⟩ := (hcompiled path).1 hleft
    obtain ⟨-, hnone, -⟩ := (hfailed path message).1 hmem
    exact Option.some_ne_none a (hget.symm.trans hnone)
  · intro path
    constructor
    · rintro (hleft | hright)
      · exact ((hcompiled path).1 hleft).1
      · obtain ⟨⟨path, message⟩, hmem, rfl⟩ := List.mem_map.1 hright
        exact ((hfailed path message).1 hmem).1
    · intro hpath
      obtain ⟨s, hs, rfl⟩ := List.mem_map.1 hpath
      cases hverdict : s.verdict settings with
      | ok a => exact Or.inl (mem_compiled_iff.2 ⟨a, List.mem_map.2 ⟨s, hs, by rw [hverdict]⟩⟩)
      | error message =>
        have hmem : (s.path, .error message) ∈ sources.map fun s => (s.path, s.verdict settings) :=
          List.mem_map.2 ⟨s, hs, by rw [hverdict]⟩
        exact Or.inr (List.mem_map.2 ⟨_, mem_failed_iff.2 hmem, rfl⟩)

end Answers

end Summary

namespace Catalog

section Sources

variable {sources : List Source} (nodup : (sources.map fun s => Path.ofText s.path).Nodup)

theorem map_fst_attempt (settings : Settings) (sources : List Source) :
    (sources.map (attempt settings)).map Prod.fst = sources.map fun s => Path.ofText s.path := by
  rw [List.map_map]
  rfl

include nodup

theorem nodup_path : (sources.map Source.path).Nodup := by
  apply List.Nodup.of_map Path.ofText
  rw [List.map_map]
  exact nodup

/-- What the catalog says after compiling sources does not depend on the order in which the jobs
end. -/
theorem answer_compileSources (c : Catalog) (jobs stages : Schedule) (path : Path) :
    (c.compileSources jobs stages sources).1.answer path =
      (c.record (sources.map (attempt c.settings))).answer path := by
  rw [compileSources_eq]
  apply answer_record_of_perm
  · exact (jobs.perm_order sources).map _
  · rw [map_fst_attempt]
    exact nodup

/-- Compiling sources side by side leaves what taking them in one by one leaves. -/
theorem compileSources_same (c : Catalog) (jobs stages : Schedule) {order : List Source}
    (h : order.Perm sources) (stages' : Schedule) :
    (c.compileSources jobs stages sources).1.Same (order.foldl (takeIn stages') c) := by
  rw [same_iff_answer, foldl_takeIn_eq_record]
  constructor
  · rw [compileSources_eq, settings_record, settings_record]
  · intro path
    have hattempts : ((sources.map (attempt c.settings)).map Prod.fst).Nodup := by
      rw [map_fst_attempt]
      exact nodup
    rw [answer_compileSources nodup, answer_record_of_perm (h.map _) hattempts]

theorem compileSources_reports (c : Catalog) (jobs stages : Schedule) :
    (Summary.ofResults (sources.map fun s => (s.path, s.verdict c.settings))).Reports sources
      (c.compileSources jobs stages sources).1 := by
  refine Summary.reports_of_answers (fun s hs => ?_) (nodup_path nodup)
  rw [answer_compileSources nodup]
  apply answer_record_of_mem
  · rw [map_fst_attempt]
    exact nodup
  · exact List.mem_map_of_mem hs

/-- Of other paths than those of the sources the catalog says what it said before. -/
theorem compileSources_frame (c : Catalog) (jobs stages : Schedule) {path : Path}
    (h : path ∉ sources.map fun s => Path.ofText s.path) :
    (c.compileSources jobs stages sources).1.answer path = c.answer path := by
  rw [answer_compileSources nodup]
  apply answer_record_of_notMem
  rw [map_fst_attempt]
  exact h

end Sources

theorem summary_compileSources (c : Catalog) (jobs stages : Schedule) (sources : List Source) :
    (c.compileSources jobs stages sources).2 =
      Summary.ofResults (sources.map fun s => (s.path, s.verdict c.settings)) := by
  rw [compileSources_eq]
  exact Summary.ofResults_eq_of_perm ((jobs.perm_order sources).map _)

/-- Compiling a folder takes its documents in. In whatever order the jobs end, the summary is the
same and lists the documents, and the catalog holds what it holds after the documents are taken in
one by one, in any order; the summary reports what the catalog then says of them, and nothing else
has changed. Where there is no folder, the call fails and changes nothing. Names are names on every
disk that is `Disk.Reached`. -/
theorem compileFolder_takes_documents_in {d : Disk} (named : d.WellNamed) (c : Catalog)
    (folder : String) :
    match (d.place? folder).filter d.isFolder with
    | none => ∀ jobs stages,
        (compileFolder Disk.files c jobs stages folder).run d =
            (.error ("Failed to list process directory " ++ folder), d) ∧
          c.perform (.folder jobs stages d folder) = c
    | some place => ∃ sources summary,
        sources.Nodup ∧ (∀ s, s ∈ sources ↔ d.HasDocument folder place s) ∧
        summary.Lists c.settings.reader (d.HasDocument folder place) ∧
        ∀ jobs stages, ∃ after : Catalog,
          (compileFolder Disk.files c jobs stages folder).run d = (.ok (after, summary), d) ∧
          (∀ order : List Source, order.Perm sources → ∀ stages,
            after.Same (order.foldl (takeIn stages) c)) ∧
          summary.Reports sources after ∧
          ∀ path, path ∉ sources.map (fun s => Path.ofText s.path) →
            after.get? path = c.get? path ∧ after.failure? path = c.failure? path := by
  split
  · rename_i hnone
    intro jobs stages
    have hrun := run_compileFolder c jobs stages d folder
    rw [Disk.sources?_eq_none hnone] at hrun
    refine ⟨hrun, ?_⟩
    rw [perform, hrun]
  · rename_i place hplace
    obtain ⟨sources, hsources, hdocuments, nodup⟩ := Disk.exists_sources named hplace
    -- The documents are the sources that are read, so a list of the ones is a list of the others.
    have hmem : d.HasDocument folder place = (· ∈ sources) :=
      funext fun s => propext (hdocuments s).symm
    refine ⟨sources, Summary.ofResults (sources.map fun s => (s.path, s.verdict c.settings)),
      List.Nodup.of_map _ nodup, hdocuments, ?_, ?_⟩
    · rw [hmem]
      exact Summary.lists_ofResults c.settings (nodup_path nodup)
    · intro jobs stages
      have hrun := run_compileFolder c jobs stages d folder
      rw [hsources] at hrun
      refine ⟨(c.compileSources jobs stages sources).1, ?_, ?_,
        compileSources_reports nodup c jobs stages, ?_⟩
      · rw [hrun, ← summary_compileSources c jobs stages sources]
      · intro order horder stages'
        exact compileSources_same nodup c jobs stages horder stages'
      · intro path hpath
        have hframe := compileSources_frame nodup c jobs stages hpath
        exact ⟨congrArg Prod.fst hframe, congrArg Prod.snd hframe⟩

/-- A folder with a document that is accepted, one that holds no text, and files that are none of
its documents. -/
def docsDisk : Disk :=
  ⟨⟨[(["docs"], .folder), (["docs", "b.yml"], .file [0xff]),
    (["docs", "a.pdl"], .file (Octets.ofText
      "process:\n  name: n\n  steps:\n    - id: e\n      type: end\n")),
    (["docs", "a.txt"], .file []), (["docs", ".yaml"], .file []), (["docs", "sub"], .folder),
    (["docs", "sub", "c.yaml"], .file [])], by decide⟩⟩

/-- A catalog that has artifacts for the document that holds no text any more. -/
def docsCatalog : Catalog :=
  ({ settings := { reader := .minimal } } : Catalog).store (Path.ofText "docs/b.yml")
    (.ok { process := ⟨"n", []⟩ })

theorem compileFolder_takes_documents_in_docs :
    let a : Source :=
      ⟨"docs/a.pdl", some "process:\n  name: n\n  steps:\n    - id: e\n      type: end\n"⟩
    let b : Source := ⟨"docs/b.yml", none⟩
    let unread := "Failed to read docs/b.yml: stream did not contain valid UTF-8"
    docsDisk.WellNamed ∧ (docsDisk.place? "docs").filter docsDisk.isFolder = some ["docs"] ∧
      (∀ s, docsDisk.HasDocument "docs" ["docs"] s ↔ s = a ∨ s = b) ∧
      (∃ sources : List Source, sources.Perm [a, b] ∧ ∀ jobs stages, ∃ after : Catalog,
        (compileFolder Disk.files docsCatalog jobs stages "docs").run docsDisk =
          (.ok (after, ⟨["docs/a.pdl"], [("docs/b.yml", unread)]⟩), docsDisk) ∧
        (∀ order : List Source, order.Perm sources → ∀ stages,
          after.Same (order.foldl (takeIn stages) docsCatalog)) ∧
        (after.get? (Path.ofText "docs/a.pdl")).map Artifacts.process =
          some ⟨"n", [{ id := "e", kind := .finish }]⟩ ∧
        after.failure? (Path.ofText "docs/a.pdl") = none ∧
        after.get? (Path.ofText "docs/b.yml") = none ∧
        after.failure? (Path.ofText "docs/b.yml") = some unread) ∧
      ∀ jobs stages, (compileFolder Disk.files docsCatalog jobs stages "other").run docsDisk =
        (.error "Failed to list process directory other", docsDisk) := by
  intro a b unread
  have hnamed : docsDisk.WellNamed := by decide +kernel
  have hplace : (docsDisk.place? "docs").filter docsDisk.isFolder = some ["docs"] := by
    decide +kernel
  have hnone : (docsDisk.place? "other").filter docsDisk.isFolder = none := by decide +kernel
  have haccept : a.Accepted .minimal :=
    ⟨_, ⟨"n", [{ id := "e", kind := .finish }]⟩, rfl, by decide +kernel⟩
  have hrefused : b.Refused .minimal unread := rfl
  -- A name that begins with its only dot has no extension, and what lies deeper is not listed.
  have hsources : docsDisk.sources? "docs" = some [b, a] := by decide +kernel
  have hdocuments (s : Source) : docsDisk.HasDocument "docs" ["docs"] s ↔ s = a ∨ s = b := by
    rw [Disk.hasDocument_iff hnamed hplace hsources]
    simp [or_comm]
  have hfolder := compileFolder_takes_documents_in hnamed docsCatalog "docs"
  rw [hplace] at hfolder
  obtain ⟨sources, summary, hnodup, hmem, hsummary, hruns⟩ := hfolder
  obtain rfl := hsummary.eq (Summary.lists_pair hdocuments haccept hrefused)
  have hother := compileFolder_takes_documents_in hnamed docsCatalog "other"
  rw [hnone] at hother
  have hperm : sources.Perm [a, b] := by
    rw [List.perm_ext_iff_of_nodup hnodup (by decide +kernel)]
    intro s
    rw [hmem, hdocuments]
    simp
  refine ⟨hnamed, hplace, hdocuments, ⟨sources, hperm, fun jobs stages => ?_⟩,
    fun jobs stages => (hother jobs stages).1⟩
  obtain ⟨after, hrun, hsame, hreports, -⟩ := hruns jobs stages
  have hget : after.get? (Path.ofText "docs/a.pdl") =
      ([a, b].foldl (takeIn .asStarted) docsCatalog).get? (Path.ofText "docs/a.pdl") :=
    Table.get?_eq_of_perm (hsame [a, b] hperm.symm .asStarted).entries _
  obtain ⟨-, -, -, hfailure⟩ := (hreports.compiled "docs/a.pdl").1 (by decide)
  obtain ⟨-, hget', hfailure'⟩ := (hreports.failed "docs/b.yml" unread).1 (by decide)
  refine ⟨after, hrun, hsame, ?_, hfailure, hget', hfailure'⟩
  rw [hget]
  decide +kernel

end Catalog

end Workflow
