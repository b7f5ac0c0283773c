import Workflow.Proofs.Disk

namespace Workflow.Disk

open Workflow.Path (IsName)

def next? (place : Place) (piece : String) : Option Place :=
  if Path.isStill piece then some place
  else if piece = ".." then if place.isEmpty then none else some place.dropLast
  else some (place ++ [piece])

/-- The files of a disk are the same on another one, and its folders are still there. -/
structure Furnished (d other : Disk) : Prop where
  files : ∀ place octets,
    other.entries.get? place = some (.file octets) ↔ d.entries.get? place = some (.file octets)
  folders : ∀ place, d.isFolder place = true → other.isFolder place = true

/-- There is a folder at a place, and the text of a path leads to it: a name that is joined to the
text leads to the name in the folder. -/
structure Reaches (d : Disk) (folder : String) (place : Place) : Prop where
  isFolder : d.isFolder place = true
  leads : ∀ name, IsName name → d.place? (Path.join folder name) = some (place ++ [name])

/-- A file can be written at a path: it leads to a place, and there is no folder. -/
def Writable (d : Disk) (path : String) : Prop :=
  ∃ place, d.place? path = some place ∧ d.isFolder place = false

theorem isFolder_iff {d : Disk} {place : Place} :
    d.isFolder place = true ↔ place = [] ∨ d.entries.get? place = some .folder := by
  simp [isFolder]

theorem follow_cons (d : Disk) (place : Place) (piece : String) (rest : List String) :
    d.follow place (piece :: rest) =
      if d.isFolder place then (next? place piece).bind fun next => d.follow next rest
      else none := by
  rw [follow, next?]
  cases d.isFolder place with
  | false => rfl
  | true =>
    by_cases hstill : Path.isStill piece = true
    · simp [hstill]
    · by_cases hup : piece = ".."
      · have hdots : Path.isStill ".." = false := by decide
        by_cases hroot : place.isEmpty = true
        · simp [hup, hdots, hroot]
        · simp [hup, hdots, hroot]
      · simp [hstill, hup]

/-- What stands in front of the next place stood in front of this one. -/
theorem prefix_of_next? {place next front : Place} {piece : String}
    (h : next? place piece = some next) (hfront : front <+: next) :
    front = next ∨ front <+: place := by
  rw [next?] at h
  split at h
  · obtain rfl := Option.some.inj h
    exact Or.inr hfront
  · split at h
    · split at h
      · simp at h
      · obtain rfl := Option.some.inj h
        exact Or.inr (hfront.trans (List.dropLast_prefix place))
    · obtain rfl := Option.some.inj h
      exact List.prefix_concat_iff.1 hfront

namespace Furnished

variable {d other third : Disk}

theorem refl (d : Disk) : d.Furnished d :=
  ⟨fun _ _ => Iff.rfl, fun _ => id⟩

theorem trans (h : d.Furnished other) (h' : other.Furnished third) : d.Furnished third where
  files place octets := (h'.files place octets).trans (h.files place octets)
  folders place hfolder := h'.folders place (h.folders place hfolder)

theorem put {place : Place} (h : d.entries.get? place = none) :
    d.Furnished (d.put place .folder) where
  files p octets := by
    rw [Disk.put, Table.get?_insert]
    split
    · rename_i hp
      simp [hp, h]
    · rfl
  folders p hp := by
    rw [isFolder_iff] at hp ⊢
    rw [Disk.put, Table.get?_insert]
    rcases hp with hp | hp
    · exact Or.inl hp
    · exact Or.inr (by simp [hp])

theorem follow (h : d.Furnished other) {place found : Place} {pieces : List String}
    (hfound : d.follow place pieces = some found) : other.follow place pieces = some found := by
  induction pieces generalizing place with
  | nil => exact hfound
  | cons piece rest ih =>
    rw [follow_cons] at hfound ⊢
    split at hfound
    · rename_i hfolder
      obtain ⟨next, hnext, hrest⟩ := Option.bind_eq_some_iff.1 hfound
      rw [if_pos (h.folders place hfolder), hnext]
      exact ih hrest
    · simp at hfound

theorem place? (h : d.Furnished other) {path : String} {place : Place}
    (hplace : d.place? path = some place) :
    other.place? path = some place := by
  rw [Disk.place?] at hplace ⊢
  split at hplace
  · rename_i hrelative
    rw [if_pos hrelative]
    exact h.follow hplace
  · simp at hplace

theorem read? (h : d.Furnished other) {path text : String} (hread : d.read? path = some text) :
    other.read? path = some text := by
  obtain ⟨octets, hoctets, htext⟩ := Option.bind_eq_some_iff.1 hread
  rw [octets?] at hoctets
  split at hoctets
  · rename_i found hfile
    obtain rfl := Option.some.inj hoctets
    obtain ⟨place, hplace, hentry⟩ := Option.bind_eq_some_iff.1 hfile
    rw [Disk.read?, octets?, h.place? hplace, Option.bind_some, (h.files place found).2 hentry]
    exact htext
  · simp at hoctets

end Furnished

section Folders

variable {d other : Disk}

/-- What making folders does at one piece: it goes on from the next place, on a disk with a folder
more at most, and if the next place does not lie on the way that was gone there is a folder at
it. -/
theorem exists_of_makeAlong_cons {place : Place} {piece : String} {rest : List String}
    (h : d.makeAlong place (piece :: rest) = some other) :
    ∃ next ready, next? place piece = some next ∧ ready.makeAlong next rest = some other ∧
      d.Furnished ready ∧ (next <+: place ∨ ready.isFolder next = true) := by
  -- A piece stays, goes up, or goes down to a folder that is there or is made.
  rw [makeAlong] at h
  rw [next?]
  split at h
  · rename_i hstill
    exact ⟨place, d, if_pos hstill, h, .refl d, Or.inl (List.prefix_refl place)⟩
  · rename_i hmoves
    rw [if_neg hmoves]
    split at h
    · rename_i hup
      rw [if_pos hup]
      split at h
      · simp at h
      · rename_i hbelow
        exact ⟨place.dropLast, d, if_neg hbelow, h, .refl d, Or.inl (List.dropLast_prefix place)⟩
    · rename_i henters
      rw [if_neg henters]
      dsimp only at h
      split at h
      · rename_i hfolder
        exact ⟨place ++ [piece], d, rfl, h, .refl d, Or.inr (isFolder_iff.2 (Or.inr hfolder))⟩
      · simp at h
      · rename_i hnothing
        have hmade : (d.put (place ++ [piece]) .folder).entries.get? (place ++ [piece]) =
            some .folder := by
          rw [put, Table.get?_insert, if_pos rfl]
        exact ⟨place ++ [piece], _, rfl, h, .put hnothing, Or.inr (isFolder_iff.2 (Or.inr hmade))⟩

/-- Where the next place has a folder, none is made. -/
theorem makeAlong_cons_of_isFolder {place next : Place} {piece : String}
    (hnext : next? place piece = some next) (hfolder : d.isFolder next = true)
    (rest : List String) :
    d.makeAlong place (piece :: rest) = d.makeAlong next rest := by
  rw [next?] at hnext
  rw [makeAlong]
  -- The cases of `next?`. Only the one that leads down could make a folder.
  split at hnext
  · rename_i hstill
    obtain rfl := Option.some.inj hnext
    rw [if_pos hstill]
  · rename_i hmoves
    rw [if_neg hmoves]
    split at hnext
    · rename_i hup
      rw [if_pos hup]
      split at hnext
      · simp at hnext
      · rename_i hbelow
        rw [if_neg hbelow, Option.some.inj hnext]
    · rename_i henters
      obtain rfl := Option.some.inj hnext
      have hentry : d.entries.get? (place ++ [piece]) = some .folder := by
        rw [isFolder_iff] at hfolder
        simpa using hfolder
      rw [if_neg henters]
      dsimp only
      rw [hentry]

/-- Making folders along a path takes no file and no folder away. -/
theorem furnished_of_makeAlong {place : Place} {pieces : List String}
    (h : d.makeAlong place pieces = some other) : d.Furnished other := by
  induction pieces generalizing d place with
  | nil =>
    obtain rfl := Option.some.inj h
    exact .refl d
  | cons piece rest ih =>
    obtain ⟨next, ready, -, hrest, hready, -⟩ := exists_of_makeAlong_cons h
    exact hready.trans (ih hrest)

theorem furnished_of_makeFolder? {path : String} (h : d.makeFolder? path = some other) :
    d.Furnished other := by
  rw [makeFolder?] at h
  split at h
  · obtain rfl := Option.some.inj h
    exact .refl d
  · split at h
    · simp at h
    · dsimp only at h
      split at h
      · simp at h
      · exact furnished_of_makeAlong h

/-- Pieces that lead from a place to a folder start at a folder. -/
theorem isFolder_of_follow {place found : Place} {pieces : List String}
    (h : d.follow place pieces = some found) (hfound : d.isFolder found = true) :
    d.isFolder place = true := by
  cases pieces with
  | nil =>
    obtain rfl := Option.some.inj h
    exact hfound
  | cons piece rest =>
    rw [follow_cons] at h
    split at h
    · assumption
    · simp at h

/-- Along folders that are there, none is made. -/
theorem makeAlong_eq_self {place found : Place} {pieces : List String}
    (h : d.follow place pieces = some found) (hfound : d.isFolder found = true) :
    d.makeAlong place pieces = some d := by
  induction pieces generalizing place with
  | nil => rfl
  | cons piece rest ih =>
    rw [follow_cons] at h
    split at h
    · obtain ⟨next, hnext, hrest⟩ := Option.bind_eq_some_iff.1 h
      rw [makeAlong_cons_of_isFolder hnext (isFolder_of_follow hrest hfound)]
      exact ih hrest
    · simp at h

/-- Making a folder that is there changes nothing. -/
theorem makeFolder?_eq_self {path : String} {place : Place}
    (h : (d.place? path).filter d.isFolder = some place) : d.makeFolder? path = some d := by
  obtain ⟨hplace, hfolder⟩ := Option.filter_eq_some_iff.1 h
  rw [place?] at hplace
  split at hplace
  · rename_i hrelative
    rw [makeFolder?]
    split
    · rfl
    · have hfound : ((d.follow [] (Path.split path)).filter d.isFolder).isNone = false := by
        simp [hplace, Option.filter_some, hfolder]
      rw [if_neg (by simp [hrelative])]
      simp only [hfound, Bool.and_false]
      exact makeAlong_eq_self hplace hfolder
  · simp at hplace

/-- Where folders were made along pieces, the pieces lead to a folder. -/
theorem exists_folder_of_makeAlong {place : Place} {pieces : List String}
    (hplace : ∀ front, front <+: place → d.isFolder front = true)
    (h : d.makeAlong place pieces = some other) :
    ∃ found, other.follow place pieces = some found ∧ other.isFolder found = true := by
  -- On the whole way to the place there are folders, so the way back over two dots leads to one
  -- too.
  induction pieces generalizing d place with
  | nil =>
    obtain rfl := Option.some.inj h
    exact ⟨place, rfl, hplace place (List.prefix_refl place)⟩
  | cons piece rest ih =>
    obtain ⟨next, ready, hnext, hrest, hready, hfolder⟩ := exists_of_makeAlong_cons h
    have hother : other.isFolder place = true :=
      (furnished_of_makeAlong h).folders place (hplace place (List.prefix_refl place))
    rw [follow_cons, if_pos hother, hnext]
    apply ih _ hrest
    intro front hfront
    rcases prefix_of_next? hnext hfront with rfl | hfront
    · rcases hfolder with hback | hfolder
      · exact hready.folders front (hplace front hback)
      · exact hfolder
    · exact hready.folders front (hplace front hfront)

theorem reaches_root (d : Disk) : d.Reaches "" [] where
  isFolder := rfl
  leads name hname := by
    have hempty : name ≠ "" := by
      rintro rfl
      exact absurd hname.moves (by decide)
    have hhead : name.toList.head? ≠ some '/' := fun h => hname.slashless (List.mem_of_head? h)
    rw [Path.join, if_pos (by simp), place?, if_pos (by simp [isRelative, hempty, hhead]),
      hname.split_eq]
    exact follow_name rfl hname

/-- A folder that was made is there. -/
theorem exists_reaches {path : String} (h : d.makeFolder? path = some other) :
    ∃ place, other.Reaches path place := by
  rw [makeFolder?] at h
  split at h
  · rename_i hempty
    exact ⟨[], hempty ▸ reaches_root other⟩
  · split at h
    · simp at h
    · rename_i hrelative
      dsimp only at h
      split at h
      · simp at h
      · obtain ⟨place, hfollow, hfolder⟩ := exists_folder_of_makeAlong (by simp [isFolder]) h
        have hplace : other.place? path = some place := by
          rw [place?, if_pos (by simpa using hrelative), hfollow]
        exact ⟨place, hfolder, fun name => place?_join hplace hfolder⟩

end Folders

section Files

variable {d other : Disk}

/-- Only the folders decide where pieces lead. -/
theorem follow_congr (h : ∀ place, other.isFolder place = d.isFolder place) (place : Place)
    (pieces : List String) : other.follow place pieces = d.follow place pieces := by
  induction pieces generalizing place with
  | nil => rfl
  | cons piece rest ih => simp only [follow, h, ih]

theorem place?_congr (h : ∀ place, other.isFolder place = d.isFolder place) (path : String) :
    other.place? path = d.place? path := by
  rw [place?, place?, follow_congr h]

/-- A file that takes no folder's place leaves the folders. -/
theorem isFolder_put_file {target : Place} (free : d.isFolder target = false) (octets : Octets)
    (place : Place) :
    (d.put target (.file octets)).isFolder place = d.isFolder place := by
  rw [Bool.eq_iff_iff, isFolder_iff, isFolder_iff, put, Table.get?_insert]
  split
  · rename_i hplace
    have hnot : ¬(place = [] ∨ d.entries.get? place = some .folder) := by
      rw [← isFolder_iff, hplace, free]
      decide
    constructor
    · rintro (hroot | hfolder)
      · exact Or.inl hroot
      · simp at hfolder
    · exact fun hfolder => absurd hfolder hnot
  · rfl

def putAll (place : Place) (d : Disk) (files : List (String × Octets)) : Disk :=
  files.foldl (fun d f => d.put (place ++ [f.1]) (.file f.2)) d

theorem putAll_cons (place : Place) (d : Disk) (f : String × Octets)
    (rest : List (String × Octets)) :
    putAll place d (f :: rest) = putAll place (d.put (place ++ [f.1]) (.file f.2)) rest :=
  rfl

/-- Files that are put where no folder is leave the folders as they are. -/
theorem isFolder_putAll {place : Place} {files : List (String × Octets)}
    (free : ∀ f ∈ files, d.isFolder (place ++ [f.1]) = false) (other : Place) :
    (putAll place d files).isFolder other = d.isFolder other := by
  induction files generalizing d with
  | nil => rfl
  | cons f rest ih =>
    obtain ⟨hfirst, hrest⟩ := List.forall_mem_cons.1 free
    rw [putAll_cons, ih, isFolder_put_file hfirst]
    intro g hg
    rw [isFolder_put_file hfirst]
    exact hrest g hg

/-- What is none of the files stays as it is. -/
theorem get?_putAll_of_ne {place other : Place} {files : List (String × Octets)}
    (h : ∀ f ∈ files, other ≠ place ++ [f.1]) (d : Disk) :
    (putAll place d files).entries.get? other = d.entries.get? other := by
  induction files generalizing d with
  | nil => rfl
  | cons f rest ih =>
    obtain ⟨hfirst, hrest⟩ := List.forall_mem_cons.1 h
    rw [putAll_cons, ih hrest, put, Table.get?_insert, if_neg hfirst]

/-- Where no name is given two contents, each file holds what it was given. -/
theorem get?_putAll_of_mem {place : Place} {files : List (String × Octets)}
    (single : ∀ name octets octets', (name, octets) ∈ files → (name, octets') ∈ files →
      octets = octets')
    {name : String} {octets : Octets} (h : (name, octets) ∈ files) (d : Disk) :
    (putAll place d files).entries.get? (place ++ [name]) = some (.file octets) := by
  induction files generalizing d with
  | nil => exact absurd h List.not_mem_nil
  | cons f rest ih =>
    have hsingle : ∀ n o o', (n, o) ∈ rest → (n, o') ∈ rest → o = o' := fun n o o' ho ho' =>
      single n o o' (List.mem_cons_of_mem f ho) (List.mem_cons_of_mem f ho')
    rw [putAll_cons]
    by_cases hlater : ∃ octets', (name, octets') ∈ rest
    -- A later file of the name has the same octets.
    · obtain ⟨octets', hmem⟩ := hlater
      have hsame : octets = octets' := single name octets octets' h (List.mem_cons_of_mem f hmem)
      exact ih hsingle (hsame ▸ hmem) _
    · obtain rfl : f = (name, octets) := by
        rcases List.mem_cons.1 h with hfirst | hrest
        · exact hfirst.symm
        · exact absurd ⟨octets, hrest⟩ hlater
      have hother : ∀ g ∈ rest, place ++ [name] ≠ place ++ [g.1] := by
        intro g hg heq
        have hname : name = g.1 := by simpa using heq
        exact hlater ⟨g.2, hname ▸ hg⟩
      rw [get?_putAll_of_ne hother, put, Table.get?_insert, if_pos rfl]

end Files

end Workflow.Disk
