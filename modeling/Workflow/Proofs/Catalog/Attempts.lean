import Workflow.Catalog.Batch
import Workflow.Disk
import Workflow.Proofs.Compilation
import Workflow.Proofs.Table
import Mathlib.Data.List.InsertIdx
/-!
Attempts to compile, and what a catalog says after them. A call stores the outcomes of its attempts
one after another, and after any calls the catalog says of a path what came of the latest attempt
for it.
-/

namespace Workflow

theorem Schedule.order_map {α β : Type} (s : Schedule) (f : α → β) (xs : List α) :
    s.order (xs.map f) = (s.order xs).map f := by
  induction xs with
  | nil => rfl
  | cons x xs ih =>
    rw [List.map_cons, order, order, ih, List.length_map, List.map_insertIdx]

/-- The outcome of a text by itself: what compiling it one stage after another gives. -/
def Settings.verdict (s : Settings) (text : String) : Outcome :=
  (s.compile text).mapError Failure.message

theorem Settings.outcome_eq_verdict (s : Settings) (stages : Schedule) (text : String) :
    s.outcome stages text = s.verdict text := by
  rw [outcome, verdict, compileScheduled_eq_map, compile_eq_map]
  cases acceptProcess s.reader text with
  | error fault => rfl
  | ok p => rfl

def Source.verdict (settings : Settings) (s : Source) : Outcome :=
  match s.text with
  | some text => settings.verdict text
  | none => .error (unreadMessage s.path)

theorem Source.outcome_eq_verdict (settings : Settings) (stages : Schedule) (s : Source) :
    s.outcome settings stages = s.verdict settings := by
  rw [outcome, verdict]
  cases s.text with
  | none => rfl
  | some text => exact settings.outcome_eq_verdict stages text

def Disk.source (d : Disk) (folder name : String) : Source :=
  ⟨Path.join folder name, d.read? (Path.join folder name)⟩

def Disk.sources? (d : Disk) (folder : String) : Option (List Source) :=
  (d.list? folder).map fun names => (names.filter Catalog.isSourceName).map (d.source folder)

namespace Catalog

abbrev Attempt := Path × Outcome

def attempt (settings : Settings) (s : Source) : Attempt :=
  (Path.ofText s.path, s.verdict settings)

def record (c : Catalog) (attempts : List Attempt) : Catalog :=
  attempts.foldl (fun c a => c.store a.1 a.2) c

/-- What came of the latest attempt for a path. -/
def latest? (attempts : List Attempt) (path : Path) : Option Outcome :=
  attempts.reverse.lookup path

/-- What a catalog says of a path: its artifacts, and why there are none. -/
def answer (c : Catalog) (path : Path) : Option Artifacts × Option String :=
  (c.get? path, c.failure? path)

def answerOf : Option Outcome → Option Artifacts × Option String
  | none => (none, none)
  | some (.ok artifacts) => (some artifacts, none)
  | some (.error message) => (none, some message)

theorem record_append (c : Catalog) (before after : List Attempt) :
    c.record (before ++ after) = (c.record before).record after :=
  List.foldl_append

theorem settings_record (c : Catalog) (attempts : List Attempt) :
    (c.record attempts).settings = c.settings := by
  induction attempts generalizing c with
  | nil => rfl
  | cons a rest ih =>
    have hrest := ih (c.store a.1 a.2)
    rw [settings_store] at hrest
    exact hrest

/-- Storing an outcome settles what is said of its path, and of no other. -/
theorem answer_store (c : Catalog) (path p : Path) (o : Outcome) :
    (c.store path o).answer p = if p = path then answerOf (some o) else c.answer p := by
  rw [answer, get?_store, failure?_store]
  by_cases hp : p = path
  · simp only [if_pos hp]
    cases o <;> rfl
  · simp only [if_neg hp]
    rfl

theorem latest?_cons (a : Attempt) (rest : List Attempt) (path : Path) :
    latest? (a :: rest) path = (latest? rest path).or (if path = a.1 then some a.2 else none) := by
  rw [latest?, latest?, List.reverse_cons, List.lookup_append]
  by_cases hp : path = a.1
  · rw [if_pos hp, hp, List.lookup_cons_self]
  · have hother : (path == a.1) = false := beq_false_of_ne hp
    rw [if_neg hp, List.lookup_cons, hother]
    rfl

/-- The latest attempt for a path decides what is said of it. -/
theorem answer_record (c : Catalog) (attempts : List Attempt) (path : Path) :
    (c.record attempts).answer path =
      match latest? attempts path with
      | none => c.answer path
      | some o => answerOf (some o) := by
  induction attempts generalizing c with
  | nil => rfl
  | cons a rest ih =>
    have hrest := ih (c.store a.1 a.2)
    rw [latest?_cons]
    rw [answer_store] at hrest
    change ((c.store a.1 a.2).record rest).answer path = _
    rw [hrest]
    -- A later attempt for the path counts, whatever this one stored.
    cases latest? rest path with
    | some o => rfl
    | none =>
      by_cases hp : path = a.1
      · simp [hp]
      · simp [hp]

theorem latest?_eq_some_iff {attempts : List Attempt} (nodup : (attempts.map Prod.fst).Nodup)
    {path : Path} {o : Outcome} : latest? attempts path = some o ↔ (path, o) ∈ attempts := by
  have hreverse : (attempts.reverse.map Prod.fst).Nodup := by
    rw [List.map_reverse]
    exact (List.reverse_perm _).nodup_iff.2 nodup
  rw [latest?, lookup_eq_some_iff_mem hreverse, List.mem_reverse]

/-- Attempts for different paths may be stored in any order. -/
theorem answer_record_of_perm {xs ys : List Attempt} (h : xs.Perm ys)
    (nodup : (ys.map Prod.fst).Nodup) (c : Catalog) (path : Path) :
    (c.record xs).answer path = (c.record ys).answer path := by
  have hxs : (xs.map Prod.fst).Nodup := (h.map Prod.fst).nodup_iff.2 nodup
  have hlatest : latest? xs path = latest? ys path := by
    apply Option.ext
    intro o
    rw [latest?_eq_some_iff hxs, latest?_eq_some_iff nodup, h.mem_iff]
  rw [answer_record, answer_record, hlatest]

theorem answer_record_of_mem {attempts : List Attempt} (nodup : (attempts.map Prod.fst).Nodup)
    (c : Catalog) {path : Path} {o : Outcome} (h : (path, o) ∈ attempts) :
    (c.record attempts).answer path = answerOf (some o) := by
  rw [answer_record, (latest?_eq_some_iff nodup).2 h]

theorem answer_record_of_notMem {attempts : List Attempt} (c : Catalog) {path : Path}
    (h : path ∉ attempts.map Prod.fst) : (c.record attempts).answer path = c.answer path := by
  have hlatest : latest? attempts path = none := by
    rw [latest?, List.lookup_eq_none_iff]
    intro a ha
    have hne : path ≠ a.1 := fun heq => h (heq ▸ List.mem_map_of_mem (List.mem_reverse.1 ha))
    exact bne_iff_ne.2 hne
  rw [answer_record, hlatest]

/-- A call that compiles and stores: of one text under a path, or of the documents in a folder of a
disk as it is then. The schedules say in which order its tasks end. -/
inductive Call
  | register (stages : Schedule) (path : Path) (text : String)
  | folder (jobs stages : Schedule) (disk : Disk) (folder : String)

def perform (c : Catalog) : Call → Catalog
  | .register stages path text => (c.register stages path text).1
  | .folder jobs stages disk folder =>
    match ((compileFolder Disk.files c jobs stages folder).run disk).1 with
    | .ok (after, _) => after
    | .error _ => c

/-- The attempts of a call, in the order in which they end. -/
def Call.attempts (settings : Settings) : Call → List Attempt
  | .register _ path text => [(path, settings.verdict text)]
  | .folder jobs _ disk place =>
    match disk.sources? place with
    | some sources => (jobs.order sources).map (attempt settings)
    | none => []

/-- Reading on a disk one after another changes nothing on it. -/
theorem run_mapM_of_reads {α β : Type} {f : α → StateM Disk β} {g : α → β} {d : Disk}
    (h : ∀ x, (f x).run d = (g x, d)) (xs : List α) : (xs.mapM f).run d = (xs.map g, d) := by
  induction xs with
  | nil => rfl
  | cons x xs ih =>
    rw [List.mapM_cons, StateT.run_bind, h]
    change (xs.mapM f >>= fun ys => pure (g x :: ys)).run d = _
    rw [StateT.run_bind, ih]
    rfl

theorem run_readSources (d : Disk) (folder : String) :
    (readSources Disk.files folder).run d = (d.sources? folder, d) := by
  have hlist : (Disk.files.list folder).run d = (pure (d.list? folder, d) : Id _) := rfl
  rw [readSources, StateT.run_bind, hlist, pure_bind, Disk.sources?]
  cases d.list? folder with
  | none => rfl
  | some names =>
    dsimp only
    rw [StateT.run_bind, run_mapM_of_reads (g := d.source folder)]
    · rfl
    · intro name
      rfl

theorem compileSources_eq (c : Catalog) (jobs stages : Schedule) (sources : List Source) :
    c.compileSources jobs stages sources =
      (c.record ((jobs.order sources).map (attempt c.settings)),
        Summary.ofResults ((jobs.order sources).map fun s => (s.path, s.verdict c.settings))) := by
  have hresults : jobs.order (sources.map fun s => (s.path, s.outcome c.settings stages)) =
      (jobs.order sources).map fun s => (s.path, s.verdict c.settings) := by
    simp only [Source.outcome_eq_verdict, Schedule.order_map]
  rw [compileSources, hresults, record, List.foldl_map, List.foldl_map]
  rfl

/-- A folder is compiled by storing what its documents come to, in the order in which they end. -/
theorem run_compileFolder (c : Catalog) (jobs stages : Schedule) (d : Disk) (folder : String) :
    (compileFolder Disk.files c jobs stages folder).run d =
      (match d.sources? folder with
        | none => .error (unlistedMessage folder)
        | some sources => .ok (c.compileSources jobs stages sources), d) := by
  rw [compileFolder, StateT.run_bind, run_readSources]
  cases d.sources? folder with
  | none => rfl
  | some sources => rfl

/-- A call stores the outcomes of its attempts, in the order in which they end. -/
theorem perform_eq_record (c : Catalog) (call : Call) :
    c.perform call = c.record (call.attempts c.settings) := by
  cases call with
  | register stages path text =>
    have houtcome : (c.register stages path text).1 = c.store path (c.settings.verdict text) := by
      rw [register, Settings.outcome_eq_verdict]
    exact houtcome
  | folder jobs stages disk folder =>
    rw [perform, Call.attempts, run_compileFolder]
    cases disk.sources? folder with
    | none => rfl
    | some sources =>
      dsimp only
      rw [compileSources_eq]

theorem foldl_perform_eq_record (c : Catalog) (calls : List Call) :
    calls.foldl perform c = c.record (calls.flatMap (Call.attempts c.settings)) := by
  induction calls generalizing c with
  | nil => rfl
  | cons call rest ih =>
    have hsettings : (c.perform call).settings = c.settings := by
      rw [perform_eq_record, settings_record]
    rw [List.foldl_cons, ih, hsettings, perform_eq_record, ← record_append, List.flatMap_cons]

/-- A call settles what is said of the paths that it attempts, and of no other. -/
theorem answer_perform (c : Catalog) (call : Call) (path : Path) :
    (c.perform call).answer path =
      match latest? (call.attempts c.settings) path with
      | none => c.answer path
      | some o => answerOf (some o) := by
  rw [perform_eq_record, answer_record]

/-- After calls on a new catalog it says of each path what came of the latest attempt for it. -/
theorem answer_foldl_perform (s : Settings) (calls : List Call) (path : Path) :
    (calls.foldl perform { settings := s }).answer path =
      answerOf (latest? (calls.flatMap (Call.attempts s)) path) := by
  rw [foldl_perform_eq_record, answer_record]
  cases latest? (calls.flatMap (Call.attempts s)) path with
  | none => rfl
  | some o => rfl

theorem get?_eq_some_of_answer {c : Catalog} {path : Path} {o : Option Outcome}
    (h : c.answer path = answerOf o) {a : Artifacts} : c.get? path = some a ↔ o = some (.ok a) := by
  have hget : c.get? path = (answerOf o).1 := congrArg Prod.fst h
  rw [hget]
  cases o with
  | none => simp [answerOf]
  | some o =>
    cases o with
    | error message => simp [answerOf]
    | ok artifacts => simp [answerOf]

theorem failure?_eq_some_of_answer {c : Catalog} {path : Path} {o : Option Outcome}
    (h : c.answer path = answerOf o) {message : String} :
    c.failure? path = some message ↔ o = some (.error message) := by
  have hfailure : c.failure? path = (answerOf o).2 := congrArg Prod.snd h
  rw [hfailure]
  cases o with
  | none => simp [answerOf]
  | some o =>
    cases o with
    | error message => simp [answerOf]
    | ok artifacts => simp [answerOf]

/-- No outcome is both artifacts and a failure. -/
theorem get?_or_failure?_eq_none {c : Catalog} {path : Path} {o : Option Outcome}
    (h : c.answer path = answerOf o) : c.get? path = none ∨ c.failure? path = none := by
  have hget : c.get? path = (answerOf o).1 := congrArg Prod.fst h
  have hfailure : c.failure? path = (answerOf o).2 := congrArg Prod.snd h
  rw [hget, hfailure]
  cases o with
  | none => exact Or.inl rfl
  | some o =>
    cases o with
    | ok artifacts => exact Or.inr rfl
    | error message => exact Or.inl rfl

/-- A path is in the table of artifacts if that is what is to be said of it. -/
theorem mem_keys_entries_iff {c : Catalog} {path : Path} {o : Option Outcome}
    (h : c.answer path = answerOf o) :
    path ∈ c.entries.keys ↔ ∃ a, o = some (.ok a) := by
  rw [Table.mem_keys_iff]
  constructor
  · rintro ⟨a, ha⟩
    exact ⟨a, (get?_eq_some_of_answer h).1 ha⟩
  · rintro ⟨a, ha⟩
    exact ⟨a, (get?_eq_some_of_answer h).2 ha⟩

/-- After any calls on a new catalog, it says of each path what came of the latest attempt for it:
nothing if there was none, else either the artifacts or the failure, and never both. A further call
settles what is said of the paths that it attempts, and of no other. The size is the number of paths
whose latest attempt made artifacts. -/
theorem answers_of_latest_attempts (s : Settings) (calls : List Call) :
    let c := calls.foldl perform { settings := s }
    let attempts := calls.flatMap (Call.attempts s)
    (∀ path, (c.get? path, c.failure? path) = answerOf (latest? attempts path)) ∧
      (∀ path, c.get? path = none ∨ c.failure? path = none) ∧
      (∀ call path, ((c.perform call).get? path, (c.perform call).failure? path) =
        match latest? (call.attempts s) path with
        | none => (c.get? path, c.failure? path)
        | some o => answerOf (some o)) ∧
      (∃ paths : List Path, paths.Nodup ∧
        (∀ path, path ∈ paths ↔ ∃ a, latest? attempts path = some (.ok a)) ∧
        c.size = paths.length) ∧
      (c.isEmpty = true ↔ c.size = 0) := by
  intro c attempts
  -- No call touches the settings, so all attempts are made under the first ones.
  have hsettings : c.settings = s := by
    change (calls.foldl perform { settings := s }).settings = s
    rw [foldl_perform_eq_record, settings_record]
  have hanswer : ∀ path, c.answer path = answerOf (latest? attempts path) :=
    answer_foldl_perform s calls
  refine ⟨hanswer, ?_, ?_, ⟨c.entries.keys, c.entries.nodup, ?_, c.entries.length_keys.symm⟩,
    c.entries.isEmpty_iff⟩
  · intro path
    exact get?_or_failure?_eq_none (hanswer path)
  · intro call path
    have hcall := answer_perform c call path
    rw [hsettings] at hcall
    exact hcall
  · intro path
    exact mem_keys_entries_iff (hanswer path)

end Catalog

end Workflow
