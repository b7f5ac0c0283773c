import Workflow.Proofs.Outline.Pieces
import Workflow.Proofs.Outline.Quoting
import Workflow.Proofs.Outline.RoundTrip
import Workflow.Proofs.Outline.Spacing
import Workflow.Proofs.Text.Pieces

namespace Workflow.Outline

open Yaml (quoteOf)

/-- A text that may stand for a key in front of a colon: no comment begins in it, no quote is open
at its end, and the line is cut behind it. -/
structure IsKey (key : List Char) (v : Tree) : Prop where
  closed : (search none none key).map Prod.fst = some none
  cut : ∀ rest, rest = [] ∨ rest.head? = some ' ' → cutKey (key ++ ':' :: rest) = some (key, rest)
  read : scalar (Text.trim key) = .ok v
  filled : Text.trim key ≠ []
  first : ∀ c ∈ key.head?, c ≠ ' ' ∧ c ≠ '\t'
  plain : ∀ rest, isItem (key ++ ':' :: rest) = false

def ReadsAs (text : List Char) (v : Tree) : Prop :=
  text = [] ∧ v = .null ∨ text ≠ [] ∧ scalar text = .ok v

/-- The lines that hold the quoted text `q` in the place of the string `s`, and what they stand for
by themselves. -/
inductive HoldsQuoted (q : List Char) (s : String) : (line : List Char) → (v : Tree) → Prop
  | value {key after : List Char} {k : Tree} {n : Nat} (is_key : IsKey key k)
      (trailer : Trailer after) :
      HoldsQuoted q s (key ++ ':' :: (spaces (n + 1) ++ q ++ after)) (.mapping [(k, .string s)])
  | item {after : List Char} {n : Nat} (trailer : Trailer after) :
      HoldsQuoted q s ('-' :: (spaces (n + 1) ++ q ++ after)) (.sequence [.string s])
  | key {rest : List Char} {v : Tree} (apart : rest = [] ∨ rest.head? = some ' ')
      (behind : ReadsAs (Text.trim (stripComment rest)) v) :
      HoldsQuoted q s (q ++ ':' :: rest) (.mapping [(.string s, v)])
  | hyphen {line : List Char} {es : List (Tree × Tree)} {n : Nat}
      (entry : HoldsQuoted q s line (.mapping es)) :
      HoldsQuoted q s ('-' :: (spaces (n + 1) ++ line)) (.sequence [.mapping es])

/-- The line stands for a value: it is read as that below a key, and wherever it stands in a text
that is accepted, the tree shows in its place what the value shows. -/
structure StandsFor (line : List Char) (v : Tree) : Prop where
  below : ∀ (n : Nat) (text : String), Text.lines text.toList =
    ["root:".toList, spaces (n + 1) ++ line] →
    loadTree .minimal text = .ok (.mapping [(.string "root", v)])
  within : ∀ (n : Nat) (text : String) (before after : List (List Char)) (tree : Tree),
    Text.lines text.toList = before ++ (spaces n ++ line) :: after →
      loadTree .minimal text = .ok tree →
      ∃ ls ls', readLines 1 before = .ok ls ∧ readLines (before.length + 2) after = .ok ls' ∧
        shown (treePieces tree) =
          shown (ls.flatMap Line.pieces) ++ shown (treePieces v) ++ shown (ls'.flatMap Line.pieces)

/-- The string survives between quotes: every line that holds it there stands for what it should. -/
def Survives (single : Bool) (s : String) : Prop :=
  ∀ line v, HoldsQuoted (quoted single s.toList) s line v → StandsFor line v

section content

theorem trimEnd_append_cons {c : Char} (hc : Text.isBlank c = false) (s t : List Char) :
    Text.trimEnd (s ++ c :: t) = s ++ c :: Text.trimEnd t := by
  have hsplit : s ++ c :: t = (s ++ [c]) ++ t := by simp
  by_cases hempty : Text.trimEnd t = []
  · have hblank : ∀ x ∈ t, Text.isBlank x = true := by
      rw [Text.trimEnd, Text.dropEndWhile_eq_rdropWhile] at hempty
      exact List.rdropWhile_eq_nil_iff.1 hempty
    have hlast : ∀ x ∈ (s ++ [c]).getLast?, Text.isBlank x = false := by simpa using hc
    rw [hsplit, Text.trimEnd_append_of_blank hblank, Text.trimEnd_eq_self hlast, hempty]
  · rw [hsplit, Text.trimEnd_append_of_ne_nil hempty]
    simp

theorem cutComment_apart {rest : List Char} (h : rest = [] ∨ rest.head? = some ' ')
    (previous : Option Char) :
    cutComment none previous rest = stripComment rest := by
  cases rest with
  | nil => rfl
  | cons x rest =>
    -- Behind the space the search is where it is at the start of a line.
    obtain rfl : x = ' ' := by simpa using h
    rfl

theorem content_append_cons {s rest : List Char} {c : Char} {previous : Option Char}
    (closed : search none none (s ++ [c]) = some (none, previous)) (hc : Text.isBlank c = false)
    (apart : rest = [] ∨ rest.head? = some ' ') :
    content (s ++ c :: rest) = s ++ c :: content rest := by
  have hsplit : s ++ c :: rest = (s ++ [c]) ++ rest := by simp
  rw [content, hsplit, stripComment, cutComment_of_search closed, cutComment_apart apart,
    List.append_assoc, List.singleton_append, trimEnd_append_cons hc, ← content]

theorem content_spaces_append {line : List Char} (h : content line ≠ []) (n : Nat) :
    content (spaces n ++ line) = spaces n ++ content line := by
  have hrelaid := content_relaid (t := []) (by simp) n line
  rwa [List.append_nil, if_neg h] at hrelaid

theorem Trailer.cutComment_blank {after : List Char} (h : Trailer after) (previous : Option Char) :
    ∀ c ∈ cutComment none previous after, Text.isBlank c = true := by
  cases h with
  | blank hblank =>
    rw [Outline.cutComment_blank hblank]
    exact hblank
  | @comment s note hblank =>
    obtain ⟨previous', hcut⟩ :=
      cutComment_append (bare_of_blank hblank) (' ' :: '#' :: note) previous
    have hend : cutComment none previous' (' ' :: '#' :: note) = [' '] := rfl
    rw [hcut, hend]
    intro c hc
    rcases List.mem_append.1 hc with hc | hc
    · exact hblank c hc
    · rw [List.mem_singleton.1 hc]
      decide

theorem content_apart {rest : List Char} (h : rest = [] ∨ rest.head? = some ' ') :
    content rest = [] ∨ (content rest).head? = some ' ' := by
  cases rest with
  | nil => exact Or.inl rfl
  | cons x rest =>
    obtain rfl : x = ' ' := by simpa using h
    have hrelaid := content_relaid (t := []) (by simp) 1 rest
    rw [List.append_nil] at hrelaid
    have hfirst : content (' ' :: rest) = _ := hrelaid
    rw [hfirst]
    split
    · exact Or.inl rfl
    · exact Or.inr rfl

theorem content_append_trailer {s after : List Char} {previous : Option Char}
    (closed : search none none s = some (none, previous))
    (last : ∀ c ∈ s.getLast?, Text.isBlank c = false) (trailer : Trailer after) :
    content (s ++ after) = s := by
  rw [content, stripComment, cutComment_of_search closed,
    Text.trimEnd_append_of_blank (trailer.cutComment_blank previous), Text.trimEnd_eq_self last]

theorem readLine_spaces_append {line : List Char}
    (first : ∀ c ∈ (content line).head?, c ≠ ' ' ∧ c ≠ '\t')
    (present : isVoid (content line) = false) (number n : Nat) :
    readLine number (spaces n ++ line) = .ok (some ⟨number, n, content line⟩) := by
  have hfilled : content line ≠ [] := fun hnil => by simp [hnil, isVoid] at present
  have hspace : (content line).head? ≠ some ' ' := fun hhead => (first ' ' hhead).1 rfl
  have htab : ((content line).head? == some '\t') = false := by
    rw [beq_eq_false_iff_ne]
    exact fun hhead => (first '\t' hhead).2 rfl
  have hlength : (spaces n ++ content line).length - (content line).length = n := by simp [spaces]
  simp only [readLine, content_spaces_append hfilled, dropSpaces_spaces_append hspace, present,
    htab, hlength, Bool.false_eq_true, if_false]

end content

/-- The line is significant, and at any column it makes a block by itself. -/
structure MakesBlock (line : List Char) (v : Tree) : Prop where
  first : ∀ c ∈ (content line).head?, c ≠ ' ' ∧ c ≠ '\t'
  present : isVoid (content line) = false
  block : ∀ number n, BlockLines n v [⟨number, n, content line⟩]

section block

variable {line : List Char} {v : Tree}

theorem MakesBlock.readLine_eq (h : MakesBlock line v) (number n : Nat) :
    readLine number (spaces n ++ line) = .ok (some ⟨number, n, content line⟩) :=
  readLine_spaces_append h.first h.present number n

/-- A line that makes a block by itself shows the same pieces in any text. -/
theorem MakesBlock.shown_within (h : MakesBlock line v) {n : Nat} {text : String}
    {before after : List (List Char)} {tree : Tree}
    (hlines : Text.lines text.toList = before ++ (spaces n ++ line) :: after)
    (hload : loadTree .minimal text = .ok tree) :
    ∃ ls ls', readLines 1 before = .ok ls ∧ readLines (before.length + 2) after = .ok ls' ∧
      shown (treePieces tree) =
        shown (ls.flatMap Line.pieces) ++ shown (treePieces v) ++
          shown (ls'.flatMap Line.pieces) := by
  obtain ⟨all, c, hall, hblock⟩ := loadTree_minimal_eq_ok hload
  rw [significantLines, hlines] at hall
  cases hbefore : readLines 1 before with
  | error f => simp [readLines_append_of_error hbefore] at hall
  | ok ls =>
    have hnumber : 1 + before.length + 1 = before.length + 2 := by omega
    rw [readLines_append_of_ok hbefore, readLines, h.readLine_eq, hnumber] at hall
    cases hafter : readLines (before.length + 2) after with
    | error f => simp [hafter, Except.map] at hall
    | ok ls' =>
      refine ⟨ls, ls', rfl, rfl, ?_⟩
      -- The line makes a block at any column, so also at the one where it stands.
      have hhere := (h.block (1 + before.length) n).shown_eq
      rw [hafter] at hall
      obtain rfl : ls ++ ([⟨1 + before.length, n, content line⟩] ++ ls') = all := by
        simpa [Except.map] using hall
      rw [← hblock.shown_eq, List.flatMap_append, List.flatMap_append, shown_append, shown_append,
        hhere, List.append_assoc]

theorem readEntry_root : readEntry "root:".toList = .ok ⟨.string "root", []⟩ := by
  have hkey : IsKeyText "root".toList := by decide +kernel
  have hname : scalarValue "root".toList = .string "root" := by decide +kernel
  have hsplit : "root:".toList = "root".toList ++ ':' :: [] := by decide +kernel
  rw [hsplit, hkey.readEntry_eq (Or.inl rfl), hname]
  rfl

theorem BlockLines.entryLines {l : Line} {key : Tree} {below : List Line} {c : Nat}
    (h : BlockLines c v below) (plain : isItem l.text = false)
    (entry : readEntry l.text = .ok ⟨key, []⟩) (column : l.indent < c) :
    EntryLines l.indent [(key, v)] (l :: below) := by
  have hall := EntryLines.cons rfl plain entry (.deeper column h) .nil
  rwa [List.append_nil] at hall

theorem MakesBlock.load_below (h : MakesBlock line v) {n : Nat} {text : String}
    (hlines : Text.lines text.toList = ["root:".toList, spaces (n + 1) ++ line]) :
    loadTree .minimal text = .ok (.mapping [(.string "root", v)]) := by
  have hfirst : FirstRemaining (Text.lines text.toList) [] "root:".toList :=
    ⟨by simp, by decide +kernel, by rw [hlines]; exact List.prefix_append _ _⟩
  have hhead : hasMappingHead text.toList = true := by
    rw [hfirst.hasMappingHead_eq]
    decide +kernel
  have hroot : readLine 1 "root:".toList = .ok (some ⟨1, 0, "root:".toList⟩) := by decide +kernel
  have hline := h.readLine_eq 2 (n + 1)
  have hls : significantLines text.toList = .ok [⟨1, 0, "root:".toList⟩,
      ⟨2, n + 1, content line⟩] := by
    simp only [significantLines, hlines, readLines, hroot, hline, Option.toList_some,
      List.singleton_append, List.append_nil]
  -- The line stands deeper than the key, so that its block is the value.
  have hplain : isItem "root:".toList = false := by decide +kernel
  have hentries : EntryLines 0 [(.string "root", v)] [⟨1, 0, "root:".toList⟩,
      ⟨2, n + 1, content line⟩] :=
    BlockLines.entryLines (l := ⟨1, 0, "root:".toList⟩) (h.block 2 (n + 1)) hplain readEntry_root
    (Nat.succ_pos n)
  have hread : readBlock [⟨1, 0, "root:".toList⟩, ⟨2, n + 1, content line⟩] =
      .ok (.mapping [(.string "root", v)]) :=
    readBlock_eq_ok_iff.2 ⟨0, _, rfl, hentries, List.pairwise_singleton _ _⟩
  rw [loadTree_minimal_of_head hhead, readTree, hls]
  simp only [hread]

theorem MakesBlock.standsFor (h : MakesBlock line v) : StandsFor line v where
  below _ _ hlines := h.load_below hlines
  within _ _ _ _ _ hlines hload := h.shown_within hlines hload

end block

/-- A key with what stands behind its colon makes a block of one entry, the comment behind it
apart. -/
theorem IsKey.makesBlock {key rest : List Char} {k v : Tree} (h : IsKey key k)
    (apart : rest = [] ∨ rest.head? = some ' ')
    (behind : ReadsAs (Text.trim (stripComment rest)) v) :
    MakesBlock (key ++ ':' :: rest) (.mapping [(k, v)]) := by
  -- No quote is open at the colon, so a comment can begin only behind it.
  have hclosed : search none none (key ++ [':']) = some (none, some ':') := by
    obtain ⟨⟨quote, previous⟩, hsearch, hquote⟩ := Option.map_eq_some_iff.1 h.closed
    obtain rfl : quote = none := hquote
    rw [search_append, hsearch]
    rfl
  have hcontent : content (key ++ ':' :: rest) = key ++ ':' :: content rest :=
    content_append_cons hclosed (by decide) apart
  have hentry : readEntry (key ++ ':' :: content rest) =
      .ok ⟨k, Text.trim (stripComment rest)⟩ := by
    have hfilled : (Text.trim key).isEmpty = false := List.isEmpty_eq_false_iff.2 h.filled
    have hrest : Text.trim (content rest) = Text.trim (stripComment rest) := Text.trim_trimEnd _
    simp only [readEntry, h.cut _ (content_apart apart), hfilled, Bool.false_eq_true, if_false,
      h.read, hrest]
  refine ⟨?_, ?_, ?_⟩
  · have hfilled : key ≠ [] := fun hnil => h.filled (by rw [hnil]; rfl)
    rw [hcontent, List.head?_append_of_ne_nil _ hfilled]
    exact h.first
  · rw [hcontent, ← Bool.not_eq_true, isVoid_iff]
    rintro (hnil | hmarker)
    · simp at hnil
    · have hcolon : ':' ∈ marker := hmarker ▸ List.mem_append_right key List.mem_cons_self
      exact absurd hcolon (by decide)
  · intro number n
    have hvalue : ValueLines n (Text.trim (stripComment rest)) v [] := by
      rcases behind with ⟨hnil, rfl⟩ | ⟨hne, hscalar⟩
      · rw [hnil]
        exact .null
      · exact .scalar hne hscalar
    have hentries : EntryLines n [(k, v)] [⟨number, n, key ++ ':' :: content rest⟩] :=
      EntryLines.cons (l := ⟨number, n, _⟩) (e := ⟨k, _⟩) rfl (h.plain _) hentry hvalue .nil
    rw [hcontent]
    exact .mapping hentries (List.cons_ne_nil _ _) (List.pairwise_singleton _ _)

section item

variable {line : List Char} {v : Tree} {n : Nat}

theorem content_item (filled : content line ≠ []) :
    content ('-' :: (spaces (n + 1) ++ line)) = '-' :: (spaces (n + 1) ++ content line) := by
  rw [← content_spaces_append filled]
  exact content_append_cons (s := []) rfl (by decide) (Or.inr rfl)

theorem makesBlock_item (first : ∀ c ∈ (content line).head?, c ≠ ' ') (filled : content line ≠ [])
    (item : ∀ l : Line, l.itemText = content line → l.unfold.text = content line →
      ItemLine l v []) :
    MakesBlock ('-' :: (spaces (n + 1) ++ line)) (.sequence [v]) := by
  have hcontent := content_item filled (n := n)
  refine ⟨?_, ?_, ?_⟩
  · rw [hcontent]
    simp
  · rw [hcontent]
    rfl
  · intro number k
    rw [hcontent]
    have htext : (⟨number, k, '-' :: (spaces (n + 1) ++ content line)⟩ : Line).itemText =
        content line :=
      Line.itemText_of_spaces rfl fun hhead => first ' ' hhead rfl
    have hitems : ItemLines k [v] [⟨number, k, '-' :: (spaces (n + 1) ++ content line)⟩] :=
      ItemLines.cons rfl rfl (item _ htext htext) .nil
    exact .sequence hitems (List.cons_ne_nil _ _)

end item

section quoted

variable {single : Bool} {s : String} (safe : ¬Exposed single s.toList)
  (read : scalar (quoted single s.toList) = .ok (.string s))

theorem isBlank_quoteOf (single : Bool) : Text.isBlank (quoteOf single) = false := by
  cases single <;> decide

theorem tight_quoted (single : Bool) (s : List Char) : Text.Tight (quoted single s) := by
  constructor
  · simpa [quoted] using isBlank_quoteOf single
  · have hlast : (quoted single s).getLast? = some (quoteOf single) := by
      rw [quoted, ← List.cons_append, List.getLast?_concat]
    simpa [hlast] using isBlank_quoteOf single

include safe

theorem search_quoted {previous : Option Char} (opens : opensQuote previous = true) :
    search none previous (quoted single s.toList) = some (none, some (quoteOf single)) := by
  rw [search_quoted_iff opens, ← Bool.not_eq_true]
  exact fun hstrays => safe (Or.inl hstrays)

theorem cutKey_quoted : cutKey (quoted single s.toList) = none :=
  cutKey_quoted_eq_none_iff.2 fun hinfix => safe (Or.inr hinfix)

theorem content_quoted_append {after : List Char} (trailer : Trailer after) :
    content (quoted single s.toList ++ after) = quoted single s.toList :=
  content_append_trailer (search_quoted safe rfl) (tight_quoted single _).last trailer

include read

/-- Where the scanners pass it whole, a quoted text is a key as any other. -/
theorem isKey_quoted : IsKey (quoted single s.toList) (.string s) := by
  have htrim := (tight_quoted single s.toList).trim_eq
  refine ⟨?_, fun rest apart => cutKey_quoted_append (cutKey_quoted safe) apart, ?_, ?_, ?_, ?_⟩
  · rw [search_quoted safe rfl]
    rfl
  · rw [htrim, read]
  · rw [htrim]
    exact List.cons_ne_nil _ _
  · cases single <;> simp [quoted, quoteOf]
  · intro rest
    cases single <;> rfl

/-- A quoted text that the scanners pass whole makes the same block wherever it stands. -/
theorem HoldsQuoted.makesBlock {line : List Char} {v : Tree}
    (h : HoldsQuoted (quoted single s.toList) s line v) :
    MakesBlock line v := by
  have hne : quoted single s.toList ≠ [] := List.cons_ne_nil _ _
  -- By the way the line holds the text. Only an entry behind a hyphen goes back to another line,
  -- its own.
  induction h with
  | @value key after k n is_key trailer =>
    have htext : Text.trim (stripComment (spaces (n + 1) ++ quoted single s.toList ++ after)) =
        quoted single s.toList := by
      have hspaces := trim_stripComment_relaid (t := []) (by simp) (n + 1)
        (quoted single s.toList ++ after)
      rw [List.append_nil, ← List.append_assoc] at hspaces
      rw [hspaces, ← Text.trim_trimEnd, ← content, content_quoted_append safe trailer,
        (tight_quoted single s.toList).trim_eq]
    refine is_key.makesBlock (Or.inr rfl) (Or.inr ?_)
    rw [htext]
    exact ⟨hne, read⟩
  | @item after n trailer =>
    have hcontent := content_quoted_append safe trailer
    rw [List.append_assoc]
    apply makesBlock_item
    · rw [hcontent]
      cases single <;> simp [quoted, quoteOf]
    · rw [hcontent]
      exact hne
    · intro l hitem _
      rw [hcontent] at hitem
      exact .scalar (hitem ▸ hne) (hitem ▸ cutKey_quoted safe) (hitem ▸ read)
  | @key rest v apart behind => exact (isKey_quoted safe read).makesBlock apart behind
  | @hyphen line es n entry ih =>
    have hfilled : content line ≠ [] := fun hnil => by simpa [hnil, isVoid] using ih.present
    apply makesBlock_item (fun c hc => (ih.first c hc).1) hfilled
    intro l hitem hunfold
    -- Behind its hyphen the line is the first one of the mapping.
    have hblock := ih.block l.unfold.number l.unfold.indent
    rw [← hunfold] at hblock
    cases hblock with
    | mapping entries _ distinct =>
      exact .mapping entries.cutKey_isSome entries distinct

end quoted

section loss

theorem lines_below_root {line : List Char} (h : '\n' ∉ line) :
    Text.lines ("root:".toList ++ '\n' :: (spaces 1 ++ line)) =
      ["root:".toList, spaces 1 ++ line] := by
  have hroot : '\n' ∉ "root:".toList := by decide +kernel
  have hline : '\n' ∉ spaces 1 ++ line := by simpa [spaces] using h
  have hreturn : Text.dropFinalReturn "root:".toList = "root:".toList := by decide +kernel
  rw [Text.lines, Text.splitAt_append, Text.splitAt_eq_singleton hroot,
    Text.splitAt_eq_singleton hline]
  show Text.dropFinalReturn "root:".toList :: [spaces 1 ++ line] = _
  rw [hreturn]

variable {line r : List Char} {v : Tree} {single : Bool}

theorem StandsFor.shown_eq (h : StandsFor line v) (unbroken : '\n' ∉ line)
    (first : ∀ c ∈ (content line).head?, c ≠ ' ' ∧ c ≠ '\t')
    (present : isVoid (content line) = false) :
    shown (Line.pieces ⟨2, 1, content line⟩) = shown (treePieces v) := by
  have hlines : Text.lines (String.ofList ("root:".toList ++ '\n' :: (spaces 1 ++ line))).toList =
      ["root:".toList, spaces 1 ++ line] := by
    rw [String.toList_ofList, lines_below_root unbroken]
  obtain ⟨ls, hls, hshown, -⟩ := loadTree_minimal_keeps_pieces (h.below 0 _ hlines)
  have hroot : readLine 1 "root:".toList = .ok (some ⟨1, 0, "root:".toList⟩) := by decide +kernel
  have hline := readLine_spaces_append first present 2 1
  have hpieces : Line.pieces ⟨1, 0, "root:".toList⟩ = [.key (.string "root")] := by
    have hplain : isItem "root:".toList = false := by decide +kernel
    rw [Line.pieces, hplain, if_neg Bool.false_ne_true, textPieces_of_readEntry readEntry_root]
    rfl
  simp only [significantLines, hlines, readLines, hroot, hline, Option.toList_some,
    List.singleton_append, List.append_nil, Except.ok.injEq] at hls
  rw [← hls, List.flatMap_cons, List.flatMap_singleton, hpieces, List.singleton_append,
    shown_cons _ rfl, treePieces_mapping (List.cons_ne_nil _ _), entryPieces, entryPieces,
    List.append_nil, shown_cons _ rfl] at hshown
  exact (List.cons.inj hshown).2

theorem StandsFor.shown_entry (h : StandsFor line v) (unbroken : '\n' ∉ line)
    (head : content line = quoteOf single :: r) :
    shown (textPieces (content line)) = shown (treePieces v) := by
  have hplain : isItem (content line) = false := by
    rw [head]
    cases single <;> rfl
  have hshown : shown (Line.pieces ⟨2, 1, content line⟩) = shown (treePieces v) := by
    apply h.shown_eq unbroken
    · rw [head]
      cases single <;> simp [quoteOf]
    · rw [head]
      cases single <;> rfl
  rwa [Line.pieces, hplain, if_neg Bool.false_ne_true] at hshown

theorem StandsFor.shown_item (h : StandsFor ('-' :: (spaces 1 ++ line)) (.sequence [v]))
    (unbroken : '\n' ∉ line) (head : content line = quoteOf single :: r) :
    shown (textPieces (content line)) = shown (treePieces v) := by
  have hcontent := content_item (head ▸ List.cons_ne_nil _ _ : content line ≠ []) (n := 0)
  have htext : Line.itemText ⟨2, 1, '-' :: (spaces 1 ++ content line)⟩ = content line := by
    rw [Line.itemText]
    apply dropSpaces_spaces_append (n := 1)
    rw [head]
    cases single <;> simp [quoteOf]
  have hpieces : Line.pieces ⟨2, 1, '-' :: (spaces 1 ++ content line)⟩ =
      .item :: textPieces (content line) := by
    rw [Line.pieces, htext]
    rfl
  have hshown := h.shown_eq (by simpa [spaces] using unbroken) (by simp [hcontent])
    (by rw [hcontent]; rfl)
  rw [hcontent, hpieces, treePieces_sequence (List.cons_ne_nil _ _), itemPieces, itemPieces,
    List.append_nil, shown_cons _ rfl, shown_cons _ rfl] at hshown
  exact (List.cons.inj hshown).2

theorem exists_shown_of_cutKey {text key rest : List Char} (h : cutKey text = some (key, rest)) :
    ∃ p, (∀ v, p ≠ .leaf v) ∧ shown (textPieces text) =
      p :: shown (valuePieces (Text.trim rest)) := by
  refine ⟨scalarPiece .key (Text.trim key), ?_, ?_⟩
  · intro v
    rw [scalarPiece]
    split <;> simp
  · rw [textPieces, h]
    apply shown_cons
    rw [scalarPiece]
    split <;> rfl

theorem ne_key_of_mem_valuePieces {text : List Char} {p : Piece} (h : p ∈ valuePieces text)
    (k : Tree) : p ≠ .key k := by
  rw [valuePieces] at h
  split at h
  · cases h
  · rw [List.mem_singleton.1 h, scalarPiece]
    split <;> simp

theorem notMem_quoted {s : List Char} (h : '\n' ∉ s) : '\n' ∉ quoted single s := by
  have hescaped : '\n' ∉ escaped single s := by
    intro hmem
    obtain ⟨c, hc, hin⟩ := List.mem_flatMap.1 hmem
    have hne : '\n' ≠ c := fun heq => h (heq ▸ hc)
    split at hin
    · cases single <;> simp [guardOf, hne] at hin
    · exact hne (List.mem_singleton.1 hin)
  cases single <;> simpa [quoted, quoteOf] using hescaped

theorem exists_content_quoted (single : Bool) (s : List Char) :
    ∃ r, content (quoted single s) = quoteOf single :: r := by
  rw [content, stripComment, quoted, cutComment,
    if_pos (isQuote_quoteOf single), ← List.nil_append (_ :: _),
    trimEnd_append_cons (isBlank_quoteOf single)]
  exact ⟨_, rfl⟩

/-- Behind a quote that stays open a comment is not found. -/
theorem content_append_of_open {s t : List Char} {x : Char} {previous : Option Char}
    (h : search none none s = some (some x, previous)) (plain : ∀ c ∈ t, isQuote c = false)
    (last : ∀ c ∈ (s ++ t).getLast?, Text.isBlank c = false) : content (s ++ t) = s ++ t := by
  have hx : x ∉ t := by
    intro hmem
    have hquote := isQuote_of_search h (by simp) x rfl
    rw [plain x hmem] at hquote
    cases hquote
  obtain ⟨previous', hwithin⟩ := search_within hx previous
  rw [content, stripComment, cutComment_of_search h, cutComment_eq_self hwithin,
    Text.trimEnd_eq_self last]

/-- An empty sequence and a comment. With the comment it is no scalar. -/
def notedEmpty : List Char :=
  [' ', '[', ']', ' ', '#']

theorem readsAs_notedEmpty : ReadsAs (Text.trim (stripComment notedEmpty)) (.sequence []) :=
  Or.inr ⟨by decide +kernel, by decide +kernel⟩

theorem valuePieces_notedEmpty :
    valuePieces (Text.trim notedEmpty) = [.unread ['[', ']', ' ', '#']] := by
  have htrim : Text.trim notedEmpty = ['[', ']', ' ', '#'] := by decide +kernel
  have hscalar : scalar ['[', ']', ' ', '#'] = .error (.unsupported "[] #") := by decide +kernel
  rw [htrim, valuePieces, if_neg (List.cons_ne_nil _ _), scalarPiece, hscalar]

variable {s : String}

theorem Survives.cutKey_eq (h : Survives single s) (unbroken : '\n' ∉ s.toList) :
    cutKey (content (quoted single s.toList)) = none := by
  obtain ⟨r, head⟩ := exists_content_quoted single s.toList
  have hstands := h _ _ (.item (n := 0) (.blank (List.forall_mem_nil _)))
  rw [List.append_nil] at hstands
  have hshown := hstands.shown_item (notMem_quoted unbroken) head
  cases hcut : cutKey (content (quoted single s.toList)) with
  | none => rfl
  | some cut =>
    -- With a colon inside it is an entry behind the hyphen, and shows a key.
    obtain ⟨p, hleaf, hp⟩ := exists_shown_of_cutKey hcut
    rw [hp] at hshown
    exact absurd (List.cons.inj hshown).1 (hleaf _)

theorem Survives.search_ne_none (h : Survives single s) (unbroken : '\n' ∉ s.toList) :
    search none none (quoted single s.toList) ≠ none := by
  intro hnone
  obtain ⟨r, head⟩ := exists_content_quoted single s.toList
  -- The comment inside takes the colon behind the text with it, so that the line shows no key.
  have hcontent : content (quoted single s.toList ++ [':']) = content (quoted single s.toList) := by
    rw [content, stripComment, cutComment_of_search_none hnone, ← stripComment, ← content]
  have hholds : HoldsQuoted (quoted single s.toList) s (quoted single s.toList ++ [':'])
      (.mapping [(.string s, .null)]) :=
    .key (Or.inl rfl) (Or.inl ⟨rfl, rfl⟩)
  have hshown := (h _ _ hholds).shown_entry (by simpa using notMem_quoted unbroken)
    (hcontent.trans head)
  have hpieces : textPieces (content (quoted single s.toList)) =
      valuePieces (content (quoted single s.toList)) := by
    rw [textPieces, h.cutKey_eq unbroken]
  have hkey : Piece.key (.string s) ∈ shown (treePieces (.mapping [(.string s, .null)])) :=
    List.mem_cons_self
  rw [← hshown, hcontent, hpieces] at hkey
  exact ne_key_of_mem_valuePieces (List.mem_of_mem_filter hkey) _ rfl

/-- Between quotes that survive, the search for a comment comes to the closing quote with no quote
open. -/
theorem Survives.closed (h : Survives single s) (unbroken : '\n' ∉ s.toList) :
    search none none (quoted single s.toList) = some (none, some (quoteOf single)) := by
  obtain ⟨⟨quote, previous⟩, hsearch⟩ := Option.ne_none_iff_exists'.1 (h.search_ne_none unbroken)
  have hlast : previous = some (quoteOf single) := by
    rw [quoted, ← List.cons_append] at hsearch
    exact search_concat hsearch
  cases quote with
  | none => rw [hsearch, hlast]
  | some x =>
    have hbare : content (quoted single s.toList) = quoted single s.toList := by
      have hwhole := content_append_of_open (t := []) hsearch (by simp)
        (by simpa using (tight_quoted single _).last)
      rwa [List.append_nil] at hwhole
    have hcut : cutKey (quoted single s.toList ++ ':' :: notedEmpty) =
        some (quoted single s.toList, notedEmpty) := by
      have hkey := h.cutKey_eq unbroken
      rw [hbare] at hkey
      exact cutKey_quoted_append hkey (Or.inr rfl)
    -- As a quote is open behind the key, the comment behind its value is read as a part of it.
    have hcontent : content (quoted single s.toList ++ ':' :: notedEmpty) =
        quoted single s.toList ++ ':' :: notedEmpty := by
      apply content_append_of_open hsearch (by simp [notedEmpty, isQuote])
      rw [List.getLast?_append_of_ne_nil _ (List.cons_ne_nil _ _)]
      intro c hc
      obtain rfl : '#' = c := by simpa [notedEmpty] using hc
      decide
    have hline : '\n' ∉ quoted single s.toList ++ ':' :: notedEmpty := by
      simpa [notedEmpty] using notMem_quoted unbroken
    have hholds : HoldsQuoted (quoted single s.toList) s
        (quoted single s.toList ++ ':' :: notedEmpty)
        (.mapping [(.string s, .sequence [])]) := .key (Or.inr rfl) readsAs_notedEmpty
    have hshown := (h _ _ hholds).shown_entry hline hcontent
    have hexpected : shown (treePieces (.mapping [(.string s, .sequence [])])) =
        [.key (.string s), .leaf (.sequence [])] := rfl
    obtain ⟨p, -, hp⟩ := exists_shown_of_cutKey hcut
    rw [hcontent, hp, valuePieces_notedEmpty, hexpected] at hshown
    simp [shown, Piece.isNull] at hshown

/-- A text that survives has nothing that leads the scanners astray. -/
theorem Survives.not_exposed (h : Survives single s) (unbroken : '\n' ∉ s.toList) :
    ¬Exposed single s.toList := by
  have hclosed := h.closed unbroken
  have hcontent : content (quoted single s.toList) = quoted single s.toList := by
    have htrailer := content_append_trailer hclosed (tight_quoted single _).last
      (.blank (List.forall_mem_nil _))
    rwa [List.append_nil] at htrailer
  rintro (hstrays | hinfix)
  · rw [(search_quoted_iff rfl).1 hclosed] at hstrays
    cases hstrays
  · have hkey := h.cutKey_eq unbroken
    rw [hcontent] at hkey
    exact cutKey_quoted_eq_none_iff.1 hkey hinfix

end loss

theorem map_search_of_bare {s : List Char} (h : Bare s) (previous : Option Char) :
    (search none previous s).map Prod.fst = some none := by
  induction s generalizing previous with
  | nil => rfl
  | cons c s ih =>
    obtain ⟨hquote, hhash⟩ := h c List.mem_cons_self
    rw [search, if_neg (by simp [hquote]), if_neg (by simp [hhash])]
    exact ih (fun x hx => h x (List.mem_cons_of_mem c hx)) (some c)

/-- A key without quotes is a key whatever stands behind its colon. -/
theorem IsKeyText.isKey {key : List Char} (h : IsKeyText key) : IsKey key (scalarValue key) where
  closed := map_search_of_bare h.isBody.bare none
  cut rest apart := by rw [h.cutKey_eq, cutAtColon_append h.colonless apart]
  read := by rw [h.trimmed, h.scalar_eq]
  filled := by
    rw [h.trimmed]
    exact h.isBody.filled
  first := by
    intro c hc
    have hblank := h.isBody.tight.first c hc
    constructor <;> rintro rfl <;> exact absurd hblank (by decide)
  plain rest := h.isItem_eq _

end Outline

open Outline Yaml

/-- The minimal reader keeps a string between quotes, doubled or escaped as it has to be, where it
holds no quote of that kind, and else exactly if the scanners do not go astray behind the first of
them. It then finds neither a comment inside nor the colon of a key. -/
theorem loadTree_minimal_keeps_quoted_iff (single : Bool) (s : String) (unbroken : '\n' ∉ s.toList)
    (read : scalar (quoted single s.toList) = .ok (.string s)) :
    (quoteOf single ∉ s.toList → Survives single s) ∧
      (Survives single s ↔ ¬Exposed single s.toList) ∧ (Survives single s →
        (∀ after, quoted single s.toList <+: stripComment (quoted single s.toList ++ after)) ∧
        ∀ rest, rest = [] ∨ rest.head? = some ' ' →
          cutKey (quoted single s.toList ++ ':' :: rest) =
            some (quoted single s.toList, rest)) := by
  have hkeeps (safe : ¬Exposed single s.toList) : Survives single s :=
    fun _ _ holds => (holds.makesBlock safe read).standsFor
  refine ⟨fun hmem => hkeeps (not_exposed_of_notMem hmem),
    ⟨fun h => h.not_exposed unbroken, hkeeps⟩, ?_⟩
  intro h
  have safe := h.not_exposed unbroken
  constructor
  · intro after
    rw [stripComment, cutComment_of_search (search_quoted safe rfl)]
    exact List.prefix_append _ _
  · exact fun rest apart => cutKey_quoted_append (cutKey_quoted safe) apart

/-- Between single quotes the hash stands between quotes of the other kind. Between double quotes it
stands behind what is taken for the closing quote. -/
theorem loadTree_minimal_keeps_quoted_hash :
    let s := "it's \"5 # 6\""
    '\n' ∉ s.toList ∧ scalar (quoted true s.toList) = .ok (.string s) ∧ Survives true s ∧
      scalar (quoted false s.toList) = .ok (.string s) ∧ ¬Survives false s ∧
      loadTree .minimal "root:\n  a b: 'it''s \"5 # 6\"' # six\n" =
        .ok (.mapping [(.string "root", .mapping [(.string "a b", .string s)])]) := by
  intro s
  have hunbroken : '\n' ∉ s.toList := by decide +kernel
  have hsingle : scalar (quoted true s.toList) = .ok (.string s) := by decide +kernel
  have hdouble : scalar (quoted false s.toList) = .ok (.string s) := by decide +kernel
  have hkept : Survives true s := (loadTree_minimal_keeps_quoted_iff true s hunbroken hsingle).2.1.2
    (by decide +kernel)
  have hlost : ¬Survives false s := fun h =>
    (loadTree_minimal_keeps_quoted_iff false s hunbroken hdouble).2.1.1 h (by decide +kernel)
  refine ⟨hunbroken, hsingle, hkept, hdouble, hlost, ?_⟩
  have hkey : IsKey "a b".toList (.string "a b") := by
    have hname : scalarValue "a b".toList = .string "a b" := by decide +kernel
    have hplain : IsKeyText "a b".toList := by decide +kernel
    exact hname ▸ hplain.isKey
  have htrailer : Trailer " # six".toList := .comment (s := []) (List.forall_mem_nil _)
  exact (hkept _ _ (.value (n := 0) hkey htrailer)).below 1 _ (by decide +kernel)

/-- Not every string survives: here the comment scanner takes the doubled quote for the end of the
text and cuts the rest off. -/
theorem not_survives_quoted : ¬∀ (single : Bool) (s : String), (∀ c ∈ s.toList, ' ' ≤ c ∧ c ≤ '~') →
    scalar (quoted single s.toList) = .ok (.string s) → Survives single s := by
  intro h
  have hkept := h true "it's # x" (by simp) (by decide +kernel)
  exact hkept.not_exposed (by decide +kernel) (by decide +kernel)

example :
    loadTree .minimal "root:\n  a: 'it''s # x'\n" = .error (.line ⟨2, .unreadable "'it''s"⟩) := by
  decide +kernel

end Workflow
