import Workflow.Path
import Workflow.Proofs.Text.Pieces

namespace Workflow

namespace Path

structure IsName (name : String) : Prop where
  moves : isStill name = false
  enters : name ≠ ".."
  slashless : '/' ∉ name.toList

instance : DecidablePred IsName := fun name =>
  decidable_of_iff (isStill name = false ∧ name ≠ ".." ∧ '/' ∉ name.toList)
    ⟨fun ⟨moves, enters, slashless⟩ => ⟨moves, enters, slashless⟩,
      fun h => ⟨h.moves, h.enters, h.slashless⟩⟩

theorem split_ne_nil (text : String) : split text ≠ [] := by
  rw [split]
  simpa using Text.splitAt_ne_nil '/' text.toList

theorem split_append (s t : String) : split (s ++ "/" ++ t) = split s ++ split t := by
  have hslash : (s ++ "/" ++ t).toList = s.toList ++ '/' :: t.toList := by simp
  rw [split, hslash, Text.splitAt_append, List.map_append]
  rfl

theorem slashless_of_mem_split {text piece : String} (h : piece ∈ split text) :
    '/' ∉ piece.toList := by
  obtain ⟨s, hs, rfl⟩ := List.mem_map.1 h
  rw [String.toList_ofList]
  exact Text.notMem_of_mem_splitAt hs

theorem IsName.split_eq {name : String} (h : IsName name) : split name = [name] := by
  rw [split, Text.splitAt_eq_singleton h.slashless, List.map_singleton, String.ofList_toList]

/-- The pieces of a folder's text are followed by the name. A slash at the end of the folder's text
makes one more piece there, which is empty. -/
theorem split_join {folder name : String} (hfolder : folder ≠ "") (hname : IsName name) :
    ∃ pieces, pieces ≠ [] ∧ split (join folder name) = pieces ++ [name] ∧
      (split folder = pieces ∨ split folder = pieces ++ [""]) := by
  have hhead : name.toList.head? ≠ some '/' := fun h => hname.slashless (List.mem_of_head? h)
  rw [join, if_neg (by simp [hfolder, hhead])]
  split
  · rename_i hlast
    -- The text of the folder is some `front` and the slash.
    obtain ⟨front, hfront⟩ : ∃ front, folder = front ++ "/" := by
      obtain ⟨front, hfront⟩ := List.getLast?_eq_some_iff.1 hlast
      exact ⟨String.ofList front, String.toList_inj.1 (by simpa using hfront)⟩
    subst hfront
    refine ⟨split front, split_ne_nil front, ?_, Or.inr ?_⟩
    · rw [split_append, hname.split_eq]
    · have hempty := split_append front ""
      rw [String.append_empty] at hempty
      rw [hempty]
      rfl
  · exact ⟨split folder, split_ne_nil folder, by rw [split_append, hname.split_eq], Or.inl rfl⟩

/-- The first part of a name stands in front of it. -/
theorem exists_partName (name : String) : ∃ rest, name = (partName name).1 ++ rest := by
  rw [partName]
  split
  · rename_i ending before rest hpieces
    dsimp only
    split
    · exact ⟨"", by simp⟩
    · have hsplit : Text.splitAt '.' name.toList = (before :: rest).reverse ++ [ending] := by
        rw [← List.reverse_cons, ← hpieces, List.reverse_reverse]
      have hjoin := Text.joinWith_splitAt '.' name.toList
      rw [hsplit, Text.joinWith_append_singleton (by simp)] at hjoin
      refine ⟨String.ofList (['.'] ++ ending), ?_⟩
      rw [← String.toList_inj, ← hjoin]
      simp
  · exact ⟨"", by simp⟩

/-- Paths are cut at slashes, so no piece has one left. -/
theorem slashless_of_mem_pieces {text piece : String} (h : piece ∈ (ofText text).pieces) :
    '/' ∉ piece.toList := by
  have hsplit {front : List String} (hfront : front ⊆ split text)
      (hmem : piece ∈ front.filter (!isStill ·)) : '/' ∉ piece.toList :=
    slashless_of_mem_split (hfront (List.mem_filter.1 hmem).1)
  rw [ofText] at h
  split at h
  · rename_i heq
    exact hsplit (heq ▸ List.subset_cons_self _ _) h
  · rename_i heq
    rcases List.mem_cons.1 h with rfl | h
    · decide
    · exact hsplit (heq ▸ List.subset_cons_self _ _) h
  · exact hsplit (List.Subset.refl _) h

theorem IsName.ofText_eq {name : String} (h : IsName name) : ofText name = ⟨false, [name]⟩ := by
  have hstill : isStill name = false := h.moves
  have hempty : name ≠ "" := by
    rintro rfl
    exact absurd hstill (by decide)
  have hdot : name ≠ "." := by
    rintro rfl
    exact absurd hstill (by decide)
  rw [ofText, h.split_eq]
  split
  · rename_i heq
    exact absurd (List.cons.inj heq).1 hempty
  · rename_i heq
    exact absurd (List.cons.inj heq).1 hdot
  · simp [hstill]

/-- The name that was joined is the last piece, whether the folder ends with a slash or not. -/
theorem getLast?_ofText_join {folder name : String} (hfolder : folder ≠ "") (hname : IsName name) :
    (ofText (join folder name)).pieces.getLast? = some name := by
  obtain ⟨pieces, hpieces, hsplit, -⟩ := split_join hfolder hname
  obtain ⟨first, rest, rfl⟩ := List.exists_cons_of_ne_nil hpieces
  have hlast (front : List String) : ((front ++ [name]).filter (!isStill ·)).getLast? =
      some name := by
    simp [hname.moves]
  have hkept (piece : String) {front : List String} (h : front.getLast? = some name) :
      (piece :: front).getLast? = some name := by
    rw [List.getLast?_cons, h]
    rfl
  -- The first piece may mark the root, or the folder itself; the name is the last piece in any
  -- case.
  rw [ofText, hsplit, List.cons_append]
  split
  · rename_i heq
    obtain ⟨-, rfl⟩ := List.cons.inj heq
    exact hlast rest
  · rename_i heq
    obtain ⟨-, rfl⟩ := List.cons.inj heq
    exact hkept "." (hlast rest)
  · exact hlast (first :: rest)

/-- Different names in a folder make different paths. -/
theorem ofText_join_injective {folder a b : String} (hfolder : folder ≠ "") (ha : IsName a)
    (hb : IsName b) (h : ofText (join folder a) = ofText (join folder b)) : a = b := by
  have hlast := getLast?_ofText_join hfolder ha
  rw [h, getLast?_ofText_join hfolder hb] at hlast
  exact (Option.some.inj hlast).symm

/-- The extension of a name is what follows its last dot, if something stands before that dot. -/
theorem IsName.extension?_eq_some_iff {name ending : String} (h : IsName name)
    (hending : '.' ∉ ending.toList) :
    (ofText name).extension? = some ending ↔ ∃ stem, stem ≠ "" ∧ name = stem ++ "." ++ ending := by
  have hfile : (ofText name).fileName? = some name := by
    have hdot : name ≠ "." := by
      rintro rfl
      exact absurd h.moves (by decide)
    rw [h.ofText_eq, fileName?]
    simp [h.enters, hdot]
  rw [extension?, hfile, Option.bind_some, partName]
  -- The pieces between dots are listed last first: the first of them is the extension, and the
  -- others make the stem.
  constructor
  · intro hext
    split at hext
    · rename_i last before rest hpieces
      dsimp only at hext
      split at hext
      · simp at hext
      · rename_i hstem
        refine ⟨String.ofList (Text.joinWith ['.'] (before :: rest).reverse),
          by simpa using hstem, ?_⟩
        have hsplit : Text.splitAt '.' name.toList = (before :: rest).reverse ++ [last] := by
          rw [← List.reverse_cons, ← hpieces, List.reverse_reverse]
        have hjoin := Text.joinWith_splitAt '.' name.toList
        rw [hsplit, Text.joinWith_append_singleton (by simp)] at hjoin
        have hlast : String.ofList last = ending := Option.some.inj hext
        rw [← String.toList_inj, ← hlast]
        simpa using hjoin.symm
    · simp at hext
  · rintro ⟨stem, hstem, rfl⟩
    have hname : (stem ++ "." ++ ending).toList = stem.toList ++ '.' :: ending.toList := by simp
    obtain ⟨before, rest, hpieces⟩ :=
      List.exists_cons_of_ne_nil (List.reverse_ne_nil_iff.2 (Text.splitAt_ne_nil '.' stem.toList))
    have hjoin : Text.joinWith ['.'] (before :: rest).reverse = stem.toList := by
      rw [← hpieces, List.reverse_reverse, Text.joinWith_splitAt]
    have hfilled : stem.toList.isEmpty = false := by simpa using hstem
    rw [hname, Text.splitAt_append, Text.splitAt_eq_singleton hending, List.reverse_append, hpieces]
    simp only [List.reverse_singleton, List.singleton_append, hjoin, hfilled, Bool.false_eq_true,
      if_false, String.ofList_toList]

end Path

end Workflow
