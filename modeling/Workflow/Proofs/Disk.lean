import Workflow.Disk
import Workflow.Proofs.Path
import Workflow.Proofs.Table

namespace Workflow.Disk

open Workflow.Path (IsName)

def WellNamed (d : Disk) : Prop :=
  ∀ place ∈ d.entries.keys, ∀ name ∈ place, IsName name

instance : DecidablePred WellNamed := fun d =>
  inferInstanceAs (Decidable (∀ place ∈ d.entries.keys, ∀ name ∈ place, IsName name))

theorem WellNamed.isName {d : Disk} (h : d.WellNamed) {place : Place} {name : String}
    {entry : DiskEntry} (hentry : d.entries.get? (place ++ [name]) = some entry) : IsName name :=
  h (place ++ [name]) (d.entries.mem_keys_iff.2 ⟨entry, hentry⟩) name (by simp)

/-- Following pieces is following the first of them, and the others from there. -/
theorem follow_append (d : Disk) (place : Place) (front back : List String) :
    d.follow place (front ++ back) = (d.follow place front).bind fun p => d.follow p back := by
  induction front generalizing place with
  | nil => rfl
  | cons piece rest ih =>
    simp only [List.cons_append, follow]
    split
    · rfl
    · split
      · exact ih place
      · split
        · split
          · rfl
          · exact ih place.dropLast
        · exact ih (place ++ [piece])

theorem follow_name {d : Disk} {place : Place} (hfolder : d.isFolder place = true) {name : String}
    (hname : IsName name) : d.follow place [name] = some (place ++ [name]) := by
  simp [follow, hfolder, hname.moves, hname.enters]

/-- An empty piece leads nowhere else. -/
theorem follow_empty {d : Disk} {place other : Place} (h : d.follow place [""] = some other) :
    other = place := by
  rw [follow] at h
  split at h
  · simp at h
  · rw [if_pos (by decide)] at h
    exact (Option.some.inj h).symm

/-- A path that can name a place still does with a name joined to it. -/
theorem isRelative_join {folder name : String} (hfolder : isRelative folder = true)
    (hname : IsName name) :
    isRelative (Path.join folder name) = true := by
  -- The first character decides, and joining keeps it.
  obtain ⟨c, rest, hc⟩ : ∃ c rest, folder.toList = c :: rest := by
    apply List.exists_cons_of_ne_nil
    intro hnil
    rw [String.toList_eq_nil_iff.1 hnil] at hfolder
    exact absurd hfolder (by decide)
  have hslash : c ≠ '/' := by
    rintro rfl
    simp [isRelative, hc] at hfolder
  have hhead : (Path.join folder name).toList.head? = some c := by
    have hnone : name.toList.head? ≠ some '/' := fun h => hname.slashless (List.mem_of_head? h)
    have hne : folder ≠ "" := by
      rintro rfl
      simp at hc
    rw [Path.join, if_neg (by simp [hne, hnone])]
    split <;> simp [hc]
  have hne : Path.join folder name ≠ "" := by
    intro hnil
    rw [hnil] at hhead
    simp at hhead
  simp [isRelative, hhead, hne, hslash]

/-- The path that joins the text of a folder and a name leads below the folder. -/
theorem place?_join {d : Disk} {folder name : String} {place : Place}
    (h : d.place? folder = some place) (hfolder : d.isFolder place = true) (hname : IsName name) :
    d.place? (Path.join folder name) = some (place ++ [name]) := by
  rw [place?] at h
  split at h
  · rename_i hrelative
    have hne : folder ≠ "" := by
      rintro rfl
      exact absurd hrelative (by decide)
    obtain ⟨pieces, -, hjoin, hsplit⟩ := Path.split_join hne hname
    have hpieces : d.follow [] pieces = some place := by
      rcases hsplit with hsplit | hsplit
      · rw [← hsplit]
        exact h
      · rw [hsplit, follow_append] at h
        obtain ⟨other, hother, hempty⟩ := Option.bind_eq_some_iff.1 h
        rw [hother, follow_empty hempty]
    rw [place?, if_pos (isRelative_join hrelative hname), hjoin, follow_append, hpieces]
    exact follow_name hfolder hname
  · simp at h

theorem read?_join {d : Disk} {folder name : String} {place : Place}
    (h : d.place? folder = some place) (hfolder : d.isFolder place = true) (hname : IsName name)
    {octets : Octets} (hfile : d.entries.get? (place ++ [name]) = some (.file octets)) :
    d.read? (Path.join folder name) = Octets.text? octets := by
  rw [read?, octets?, place?_join h hfolder hname, Option.bind_some, hfile]
  rfl

/-- An entry gives a name in a folder if it is the file of that name directly below the folder. -/
theorem nameIn?_eq_some_iff {place : Place} {entry : Place × DiskEntry} {name : String} :
    nameIn? place entry = some name ↔ ∃ octets, entry = (place ++ [name], .file octets) := by
  obtain ⟨other, entry⟩ := entry
  cases entry with
  | folder => simp [nameIn?]
  | file octets =>
    rw [nameIn?]
    constructor
    · intro h
      split at h
      · rename_i hplace
        obtain ⟨front, rfl⟩ := List.getLast?_eq_some_iff.1 h
        rw [List.dropLast_concat] at hplace
        exact ⟨octets, by rw [hplace]⟩
      · simp at h
    · rintro ⟨octets', h⟩
      obtain ⟨rfl, -⟩ := Prod.mk.inj h
      simp

/-- The files that are listed for a folder are those directly below its place. -/
theorem list?_eq {d : Disk} {folder : String} :
    d.list? folder =
      ((d.place? folder).filter d.isFolder).map fun place =>
        d.entries.entries.filterMap (nameIn? place) := by
  rw [list?]
  cases d.place? folder with
  | none => rfl
  | some place =>
    dsimp only
    rw [Option.filter_some]
    cases d.isFolder place <;> rfl

theorem mem_names_iff {d : Disk} {place : Place} {name : String} :
    name ∈ d.entries.entries.filterMap (nameIn? place) ↔
      ∃ octets, d.entries.get? (place ++ [name]) = some (.file octets) := by
  simp only [List.mem_filterMap, nameIn?_eq_some_iff, Table.get?_eq_some_iff]
  constructor
  · rintro ⟨entry, hentry, octets, rfl⟩
    exact ⟨octets, hentry⟩
  · rintro ⟨octets, hentry⟩
    exact ⟨_, hentry, octets, rfl⟩

theorem nodup_names (d : Disk) (place : Place) :
    (d.entries.entries.filterMap (nameIn? place)).Nodup := by
  have hkeys := List.pairwise_map.1 d.entries.nodup
  rw [List.Nodup, List.pairwise_filterMap]
  apply hkeys.imp
  intro a b hne name hname name' hname' heq
  obtain ⟨octets, rfl⟩ := nameIn?_eq_some_iff.1 hname
  obtain ⟨octets', rfl⟩ := nameIn?_eq_some_iff.1 hname'
  exact hne (by rw [heq])

theorem wellNamed_empty : ({} : Disk).WellNamed := by
  intro place hplace
  exact absurd hplace List.not_mem_nil

theorem WellNamed.put {d : Disk} (h : d.WellNamed) {place : Place}
    (hplace : ∀ name ∈ place, IsName name) (entry : DiskEntry) : (d.put place entry).WellNamed := by
  intro other hother
  obtain ⟨value, hvalue⟩ := (Table.mem_keys_iff _).1 hother
  rw [Disk.put, Table.get?_insert] at hvalue
  split at hvalue
  · rename_i heq
    exact heq ▸ hplace
  · exact h other (d.entries.mem_keys_iff.2 ⟨value, hvalue⟩)

theorem names_append {place : Place} (hplace : ∀ name ∈ place, IsName name) {piece : String}
    (hslash : '/' ∉ piece.toList) (hstill : ¬Path.isStill piece = true) (hup : ¬piece = "..") :
    ∀ name ∈ place ++ [piece], IsName name := by
  intro name hname
  rcases List.mem_append.1 hname with hname | hname
  · exact hplace name hname
  · rw [List.mem_singleton.1 hname]
    exact ⟨by simpa using hstill, hup, hslash⟩

/-- What pieces without slashes lead to has names only. -/
theorem names_of_follow {d : Disk} {place other : Place} {pieces : List String}
    (hplace : ∀ name ∈ place, IsName name) (hpieces : ∀ piece ∈ pieces, '/' ∉ piece.toList)
    (h : d.follow place pieces = some other) : ∀ name ∈ other, IsName name := by
  induction pieces generalizing place with
  | nil =>
    obtain rfl := Option.some.inj h
    exact hplace
  | cons piece rest ih =>
    have hrest : ∀ piece ∈ rest, '/' ∉ piece.toList :=
      fun p hp => hpieces p (List.mem_cons_of_mem _ hp)
    -- A piece stays where it is, leads one up, or leads to a name.
    rw [follow] at h
    split at h
    · simp at h
    · split at h
      · exact ih hplace hrest h
      · rename_i hstill
        split at h
        · split at h
          · simp at h
          · exact ih (fun name hname => hplace name (List.dropLast_subset place hname)) hrest h
        · rename_i hup
          exact ih (names_append hplace (hpieces piece List.mem_cons_self) hstill hup) hrest h

/-- Folders that are made have the pieces of a path for names. -/
theorem WellNamed.makeAlong {d other : Disk} (hd : d.WellNamed) {place : Place}
    {pieces : List String} (hplace : ∀ name ∈ place, IsName name)
    (hpieces : ∀ piece ∈ pieces, '/' ∉ piece.toList)
    (h : d.makeAlong place pieces = some other) : other.WellNamed := by
  induction pieces generalizing d place with
  | nil =>
    obtain rfl := Option.some.inj h
    exact hd
  | cons piece rest ih =>
    have hrest : ∀ piece ∈ rest, '/' ∉ piece.toList :=
      fun p hp => hpieces p (List.mem_cons_of_mem _ hp)
    -- The cases are those of following a path. Only a name that leads nowhere yet is put on the
    -- disk.
    rw [Disk.makeAlong] at h
    split at h
    · exact ih hd hplace hrest h
    · rename_i hstill
      split at h
      · split at h
        · simp at h
        · exact ih hd (fun name hname => hplace name (List.dropLast_subset place hname)) hrest h
      · rename_i hup
        have hnames := names_append hplace (hpieces piece List.mem_cons_self) hstill hup
        dsimp only at h
        split at h
        · exact ih hd hnames hrest h
        · simp at h
        · exact ih (hd.put hnames _) hnames hrest h

theorem WellNamed.write? {d other : Disk} (hd : d.WellNamed) {path : String} {octets : Octets}
    (h : d.write? path octets = some other) : other.WellNamed := by
  rw [Disk.write?] at h
  split at h
  · rename_i place hplace
    split at h
    · simp at h
    · obtain rfl := Option.some.inj h
      rw [place?] at hplace
      split at hplace
      · have hnames : ∀ name ∈ place, IsName name :=
          names_of_follow (by simp) (fun _ => Path.slashless_of_mem_split) hplace
        exact hd.put hnames _
      · simp at hplace
  · simp at h

theorem WellNamed.makeFolder? {d other : Disk} (hd : d.WellNamed) {path : String}
    (h : d.makeFolder? path = some other) : other.WellNamed := by
  rw [Disk.makeFolder?] at h
  split at h
  · obtain rfl := Option.some.inj h
    exact hd
  · split at h
    · simp at h
    · dsimp only at h
      split at h
      · simp at h
      · exact hd.makeAlong (by simp) (fun _ => Path.slashless_of_mem_split) h

theorem WellNamed.erase {d : Disk} (hd : d.WellNamed) (places : List Place) :
    WellNamed ⟨places.foldl Table.erase d.entries⟩ := by
  induction places generalizing d with
  | nil => exact hd
  | cons place rest ih =>
    have hfirst : WellNamed ⟨d.entries.erase place⟩ := by
      intro other hother
      obtain ⟨value, hvalue⟩ := (Table.mem_keys_iff _).1 hother
      rw [Table.get?_erase] at hvalue
      split at hvalue
      · simp at hvalue
      · exact hd other (d.entries.mem_keys_iff.2 ⟨value, hvalue⟩)
    exact ih hfirst

theorem WellNamed.remove {d : Disk} (hd : d.WellNamed) (path : String) :
    (d.remove path).WellNamed := by
  rw [Disk.remove]
  split
  · exact hd.erase _
  · exact hd

theorem WellNamed.add {d : Disk} (hd : d.WellNamed) (path : String) (octets : Octets) :
    (d.add path octets).WellNamed := by
  rw [Disk.add]
  split
  · rename_i other hother
    have hfolders : other.WellNamed := by
      apply hd.makeAlong (by simp) _ hother
      intro piece hpiece
      exact Path.slashless_of_mem_split (List.dropLast_subset _ hpiece)
    split
    · exact hfolders
    · cases hwrite : other.write? path octets with
      | none => exact hfolders
      | some written => exact hfolders.write? hwrite
  · exact hd

/-- A disk that operations make of the empty one. -/
inductive Reached : Disk → Prop
  | empty : Reached {}
  | write {d other : Disk} {path : String} {octets : Octets} (before : Reached d)
      (step : d.write? path octets = some other) : Reached other
  | makeFolder {d other : Disk} {path : String} (before : Reached d)
      (step : d.makeFolder? path = some other) : Reached other
  | remove {d : Disk} (before : Reached d) (path : String) : Reached (d.remove path)
  | add {d : Disk} (before : Reached d) (path : String) (octets : Octets) :
      Reached (d.add path octets)

/-- No operation makes a name of anything else. -/
theorem Reached.wellNamed {d : Disk} (h : Reached d) : d.WellNamed := by
  induction h with
  | empty => exact wellNamed_empty
  | write _ step ih => exact ih.write? step
  | makeFolder _ step ih => exact ih.makeFolder? step
  | remove _ path ih => exact ih.remove path
  | add _ path octets ih => exact ih.add path octets

end Workflow.Disk
