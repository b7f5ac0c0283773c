import Workflow.Outline.Key
import Workflow.Proofs.Yaml.QuotedLine
import Mathlib.Data.List.TakeWhile
/-!
Texts between quotes under the two scanners of a line, the one that looks for a comment and the one
that looks for the colon of a key. Neither knows that a quote may be written inside of a quoted
text: both take the first one for the end of it. What stands behind that one decides whether they
still pass the text whole.
-/

namespace Workflow.Outline

open Yaml (quoteOf)

def isGuarded (single : Bool) (c : Char) : Bool :=
  c == quoteOf single || !single && c == '\\'

/-- What is written before them: a single quote is doubled. -/
def guardOf (single : Bool) : Char :=
  if single then '\'' else '\\'

def escaped (single : Bool) (s : List Char) : List Char :=
  s.flatMap fun c => if isGuarded single c then [guardOf single, c] else [c]

def quoted (single : Bool) (s : List Char) : List Char :=
  quoteOf single :: (escaped single s ++ [quoteOf single])

def behindFirst (single : Bool) (s : List Char) : List Char :=
  (s.dropWhile (· != quoteOf single)).drop 1

/-- Whether the search for a comment goes astray in what it takes for unquoted: a comment begins
there, or a quote is open at its end, the closing quote among them. `inside` says whether the other
quote is open. -/
def strays (single : Bool) : (inside : Bool) → (previous : Char) → List Char → Bool
  | inside, previous, [] => inside || opensQuote (some previous)
  | true, _, c :: r => strays single (c != quoteOf !single) c r
  | false, previous, c :: r =>
    c == '#' && previous == ' ' ||
      strays single (c == quoteOf (!single) && opensQuote (some previous)) c r

/-- The scanners do not pass the text whole between quotes: it has a quote of the kind it is written
between, and behind it either the search for a comment goes astray or there is a colon with a
space. -/
def Exposed (single : Bool) (s : List Char) : Prop :=
  strays single false (quoteOf single) (behindFirst single s) = true ∨
    [':', ' '] <:+: behindFirst single s

instance (single : Bool) : DecidablePred (Exposed single) := fun s =>
  inferInstanceAs (Decidable (_ ∨ [':', ' '] <:+: behindFirst single s))

theorem escaped_cons (single : Bool) (c : Char) (s : List Char) :
    escaped single (c :: s) = (if isGuarded single c then [guardOf single, c] else [c]) ++
      escaped single s :=
  List.flatMap_cons

theorem escaped_append (single : Bool) (s t : List Char) :
    escaped single (s ++ t) = escaped single s ++ escaped single t :=
  List.flatMap_append

theorem isQuote_quoteOf (single : Bool) : isQuote (quoteOf single) = true := by
  cases single <;> rfl

theorem isGuarded_quoteOf (single : Bool) : isGuarded single (quoteOf single) = true := by
  simp [isGuarded]

theorem quoteOf_notMem_escaped {single : Bool} {s : List Char} (h : quoteOf single ∉ s) :
    quoteOf single ∉ escaped single s := by
  intro hmem
  obtain ⟨c, hc, hin⟩ := List.mem_flatMap.1 hmem
  have hne : c ≠ quoteOf single := fun heq => h (heq ▸ hc)
  split at hin
  · -- Only a backslash can stand here, as the quotes that are doubled are of the kind that does not
    -- occur.
    rename_i hguarded
    cases single with
    | true => exact hne (by simpa [isGuarded] using hguarded)
    | false => exact hne ((List.mem_pair.1 hin).resolve_left (by decide)).symm
  · exact hne (List.mem_singleton.1 hin).symm

theorem forall_bne_of_notMem {q : Char} {s : List Char} (h : q ∉ s) : ∀ c ∈ s, (c != q) = true := by
  intro c hc
  rw [bne_iff_ne]
  exact fun heq => h (heq ▸ hc)

theorem behindFirst_append {single : Bool} {front : List Char} (h : quoteOf single ∉ front)
    (w : List Char) :
    behindFirst single (front ++ quoteOf single :: w) = w := by
  simp [behindFirst, List.dropWhile_append_of_pos (forall_bne_of_notMem h)]

theorem behindFirst_of_notMem {single : Bool} {s : List Char} (h : quoteOf single ∉ s) :
    behindFirst single s = [] := by
  rw [behindFirst, List.dropWhile_eq_nil_iff.2 (forall_bne_of_notMem h), List.drop_nil]

/-- A text without quotes of its own kind is safe, whatever else it holds. -/
theorem not_exposed_of_notMem {single : Bool} {s : List Char} (h : quoteOf single ∉ s) :
    ¬Exposed single s := by
  rw [Exposed, behindFirst_of_notMem h]
  cases single <;> decide

section search

/-- Goes through a text in search of a comment: the quote that is open at its end and the character
before that end, or nothing if a comment begins in the text. -/
def search : (quote previous : Option Char) → List Char → Option (Option Char × Option Char)
  | quote, previous, [] => some (quote, previous)
  | some q, _, c :: r => search (if c == q then none else some q) (some c) r
  | none, previous, c :: r =>
    if isQuote c then search (if opensQuote previous then some c else none) (some c) r
    else if c == '#' && opensComment previous then none
    else search none (some c) r

/-- The search goes on from where it stands. -/
theorem search_append (quote previous : Option Char) (s t : List Char) :
    search quote previous (s ++ t) = (search quote previous s).bind fun e => search e.1 e.2 t := by
  fun_induction search quote previous s with
  | case1 quote previous => rfl
  | case2 previous q c r ih => rw [List.cons_append, search, ih]
  | case3 previous c r hquote ih => rw [List.cons_append, search, if_pos hquote, ih]
  | case4 previous c r hquote hcomment =>
    rw [List.cons_append, search, if_neg hquote, if_pos hcomment]
    rfl
  | case5 previous c r hquote hcomment ih =>
    rw [List.cons_append, search, if_neg hquote, if_neg hcomment, ih]

/-- Where no comment begins, nothing is cut. -/
theorem cutComment_of_search {quote previous quote' previous' : Option Char} {s : List Char}
    (h : search quote previous s = some (quote', previous')) (t : List Char) :
    cutComment quote previous (s ++ t) = s ++ cutComment quote' previous' t := by
  fun_induction search quote previous s with
  | case1 quote previous =>
    obtain ⟨rfl, rfl⟩ := Prod.mk.inj (Option.some.inj h)
    rfl
  | case2 previous q c r ih => rw [List.cons_append, cutComment, ih h, List.cons_append]
  | case3 previous c r hquote ih =>
    rw [List.cons_append, cutComment, if_pos hquote, ih h, List.cons_append]
  | case4 previous c r hquote hcomment => cases h
  | case5 previous c r hquote hcomment ih =>
    rw [List.cons_append, cutComment, if_neg hquote, if_neg hcomment, ih h, List.cons_append]

theorem cutComment_eq_self {quote previous quote' previous' : Option Char} {s : List Char}
    (h : search quote previous s = some (quote', previous')) : cutComment quote previous s = s := by
  have hend : cutComment quote' previous' [] = [] := by rw [cutComment]
  have hcut := cutComment_of_search h []
  rwa [List.append_nil, hend, List.append_nil] at hcut

theorem cutComment_of_search_none {quote previous : Option Char} {s : List Char}
    (h : search quote previous s = none) (t : List Char) :
    cutComment quote previous (s ++ t) = cutComment quote previous s := by
  fun_induction search quote previous s with
  | case1 quote previous => cases h
  | case2 previous q c r ih => rw [List.cons_append, cutComment, ih h, cutComment]
  | case3 previous c r hquote ih =>
    rw [List.cons_append, cutComment, cutComment, if_pos hquote, if_pos hquote, ih h]
  | case4 previous c r hquote hcomment =>
    rw [List.cons_append, cutComment, cutComment, if_neg hquote, if_neg hquote, if_pos hcomment,
      if_pos hcomment]
  | case5 previous c r hquote hcomment ih =>
    rw [List.cons_append, cutComment, cutComment, if_neg hquote, if_neg hquote, if_neg hcomment,
      if_neg hcomment, ih h]

theorem search_concat {quote previous : Option Char} {s : List Char} {c : Char}
    {e : Option Char × Option Char} (h : search quote previous (s ++ [c]) = some e) :
    e.2 = some c := by
  rw [search_append] at h
  obtain ⟨⟨q, p⟩, -, hlast⟩ := Option.bind_eq_some_iff.1 h
  cases q with
  | some q => rw [← Option.some.inj hlast]
  | none =>
    rw [search] at hlast
    split at hlast
    · rw [← Option.some.inj hlast]
    split at hlast
    · cases hlast
    · rw [← Option.some.inj hlast]

theorem isQuote_of_search {quote previous : Option Char} {s : List Char}
    {e : Option Char × Option Char} (h : search quote previous s = some e)
    (hquote : ∀ q ∈ quote, isQuote q = true) : ∀ q ∈ e.1, isQuote q = true := by
  -- A quote that is open was found on the way, or was open at the start.
  fun_induction search quote previous s with
  | case1 quote previous =>
    rw [← Option.some.inj h]
    exact hquote
  | case2 previous q c r ih =>
    apply ih h
    split
    · simp
    · exact hquote
  | case3 previous c r hc ih =>
    apply ih h
    split
    · simpa using hc
    · simp
  | case4 previous c r hc hcomment => cases h
  | case5 previous c r hc hcomment ih => exact ih h (by simp)

theorem search_within {q : Char} {s : List Char} (h : q ∉ s) (previous : Option Char) :
    ∃ previous', search (some q) previous s = some (some q, previous') := by
  induction s generalizing previous with
  | nil => exact ⟨previous, rfl⟩
  | cons c s ih =>
    obtain ⟨hc, hs⟩ := List.ne_and_not_mem_of_not_mem_cons h
    rw [search, if_neg (by simpa using Ne.symm hc)]
    exact ih hs (some c)

end search

theorem search_escaped_first {single : Bool} {front : List Char} (h : quoteOf single ∉ front)
    (w : List Char) :
    search (some (quoteOf single)) (some (quoteOf single))
      (escaped single (front ++ quoteOf single :: w)) =
      search none (some (quoteOf single)) (escaped single w) := by
  obtain ⟨previous, hwithin⟩ := search_within (quoteOf_notMem_escaped h) (some (quoteOf single))
  rw [escaped_append, escaped_cons, if_pos (isGuarded_quoteOf single), search_append, hwithin]
  -- The first quote inside counts as the closing one. If it is doubled, the second one opens
  -- nothing, as it stands behind a quote.
  cases single <;> rfl

def otherOpen (single inside : Bool) : Option Char :=
  if inside then some (quoteOf !single) else none

theorem guarded_cases {single : Bool} {c : Char} (h : isGuarded single c = true) :
    single = true ∧ c = '\'' ∨ single = false ∧ (c = '"' ∨ c = '\\') := by
  cases single with
  | true => exact Or.inl ⟨rfl, by simpa [isGuarded, quoteOf] using h⟩
  | false => exact Or.inr ⟨rfl, by simpa [isGuarded, quoteOf] using h⟩

theorem search_escaped_inside (single : Bool) (previous c : Char) (s t : List Char) :
    search (otherOpen single true) (some previous) (escaped single (c :: s) ++ t) =
      search (otherOpen single (c != quoteOf !single)) (some c) (escaped single s ++ t) := by
  rw [escaped_cons]
  split
  · rename_i hguarded
    rcases guarded_cases hguarded with ⟨rfl, rfl⟩ | ⟨rfl, rfl | rfl⟩ <;> rfl
  · by_cases hother : c = quoteOf !single <;> simp [search, otherOpen, hother]

theorem search_escaped_outside (single : Bool) (previous c : Char) (s t : List Char) :
    search (otherOpen single false) (some previous) (escaped single (c :: s) ++ t) =
      if c == '#' && previous == ' ' then none
      else search (otherOpen single (c == quoteOf (!single) && opensQuote (some previous))) (some c)
        (escaped single s ++ t) := by
  rw [escaped_cons]
  split
  · rename_i hguarded
    rcases guarded_cases hguarded with ⟨rfl, rfl⟩ | ⟨rfl, rfl | rfl⟩
    · -- Whether the first of the two opens a quote or not, the second leaves none open.
      show search (if opensQuote (some previous) then some '\'' else none) (some '\'')
        ('\'' :: (escaped true s ++ t)) = search none (some '\'') (escaped true s ++ t)
      cases opensQuote (some previous) <;> rfl
    · rfl
    · rfl
  · rename_i hordinary
    have hquote : isQuote c = (c == quoteOf !single) := by
      cases single <;> simp_all [isQuote, isGuarded, quoteOf]
    have hnone : otherOpen single false = none := rfl
    rw [hnone, List.singleton_append, List.cons_append, search, hquote]
    by_cases hother : c = quoteOf !single
    · have hhash : (c == '#') = false := by cases single <;> simp [hother, quoteOf]
      simp [hhash, otherOpen, ← hother]
    · simp [hother, otherOpen, opensComment]

/-- The search reaches the closing quote in the open exactly if it does not stray. -/
theorem search_escaped_iff (single inside : Bool) (previous : Char) (s : List Char) :
    search (otherOpen single inside) (some previous) (escaped single s ++ [quoteOf single]) =
        some (none, some (quoteOf single)) ↔
      strays single inside previous s = false := by
  -- `inside` and `previous` are the whole state of the search here, as no quote of the own kind is
  -- ever left open.
  induction s generalizing inside previous with
  | nil =>
    cases inside with
    | true => cases single <;> simp [escaped, search, strays, otherOpen, quoteOf]
    | false => cases single <;> cases hopens : opensQuote (some previous) <;>
        simp [escaped, search, strays, otherOpen, quoteOf, isQuote, hopens]
  | cons c s ih =>
    cases inside with
    | true => rw [search_escaped_inside, ih, strays]
    | false =>
      rw [search_escaped_outside, strays]
      cases c == '#' && previous == ' ' with
      | true => simp
      | false => rw [if_neg Bool.false_ne_true, ih, Bool.false_or]

/-- The search for a comment passes the quoted text whole and has no quote open behind it. -/
theorem search_quoted_iff {single : Bool} {previous : Option Char}
    (opens : opensQuote previous = true) {s : List Char} :
      search none previous (quoted single s) = some (none, some (quoteOf single)) ↔
      strays single false (quoteOf single) (behindFirst single s) = false := by
  rw [quoted, search, if_pos (isQuote_quoteOf single), if_pos opens]
  by_cases hmem : quoteOf single ∈ s
  · obtain ⟨front, w, rfl, hfront⟩ := List.eq_append_cons_of_mem hmem
    rw [behindFirst_append hfront, search_append, search_escaped_first hfront, ← search_append]
    exact search_escaped_iff single false _ w
  · obtain ⟨previous', hwithin⟩ :=
      search_within (quoteOf_notMem_escaped hmem) (some (quoteOf single))
    rw [behindFirst_of_notMem hmem, search_append, hwithin]
    cases single <;> simp [search, strays, opensQuote, quoteOf]

section colon

variable {s rest : List Char}

theorem cutAtColon_cons_eq_none_iff {c : Char} {r : List Char} :
    cutAtColon (c :: r) = none ↔ ¬(c = ':' ∧ (r = [] ∨ r.head? = some ' ')) ∧
    cutAtColon r = none := by
  rw [cutAtColon]
  by_cases hcut : c = ':' ∧ (r = [] ∨ r.head? = some ' ')
  · simp [hcut]
  · cases cutAtColon r <;> simp [hcut]

theorem cutAfterQuote_cons_eq_none_iff {q c : Char} {r : List Char} :
    cutAfterQuote q (c :: r) = none ↔ if c = q then cutAtColon r = none
    else cutAfterQuote q r = none := by
  rw [cutAfterQuote]
  by_cases hc : c = q
  · cases cutAtColon r <;> simp [hc]
  · cases cutAfterQuote q r <;> simp [hc]

theorem cutAtColon_append_of_none (h : cutAtColon s = none)
    (hrest : rest = [] ∨ rest.head? = some ' ') :
    cutAtColon (s ++ ':' :: rest) = some (s, rest) := by
  induction s with
  | nil => rcases hrest with rfl | hrest <;> simp_all [cutAtColon]
  | cons c s ih =>
    obtain ⟨hcolon, hs⟩ := cutAtColon_cons_eq_none_iff.1 h
    -- A colon at the end of the text would cut it.
    have hnot : (c == ':' && ((s ++ ':' :: rest).isEmpty || (s ++ ':' :: rest).head? == some ' ')) =
        false := by
      cases s with
      | nil => simp
      | cons x s => simpa using hcolon
    rw [List.cons_append, cutAtColon, hnot, ih hs]
    rfl

theorem cutAfterQuote_append_of_none {q : Char} (closed : q ∈ s) (h : cutAfterQuote q s = none)
    (hrest : rest = [] ∨ rest.head? = some ' ') :
    cutAfterQuote q (s ++ ':' :: rest) = some (s, rest) := by
  induction s with
  | nil => cases closed
  | cons c s ih =>
    rw [cutAfterQuote_cons_eq_none_iff] at h
    rw [List.cons_append, cutAfterQuote]
    by_cases hc : c = q
    · rw [if_pos hc] at h
      rw [if_pos (by simpa using hc), cutAtColon_append_of_none h hrest]
    · rw [if_neg hc] at h
      rw [if_neg (by simpa using hc), ih ((List.mem_cons.1 closed).resolve_left (Ne.symm hc)) h]

theorem cutAfterQuote_append_eq_none_iff {q : Char} {front r : List Char} (h : q ∉ front) :
    cutAfterQuote q (front ++ q :: r) = none ↔ cutAtColon r = none := by
  induction front with
  | nil => rw [List.nil_append, cutAfterQuote_cons_eq_none_iff, if_pos rfl]
  | cons c front ih =>
    obtain ⟨hc, hfront⟩ := List.ne_and_not_mem_of_not_mem_cons h
    rw [List.cons_append, cutAfterQuote_cons_eq_none_iff, if_neg (Ne.symm hc), ih hfront]

/-- Taken for unquoted, a text is cut exactly if a colon with a space behind it stands in it. -/
theorem cutAtColon_escaped_eq_none_iff (single : Bool) (s : List Char) :
    cutAtColon (escaped single s ++ [quoteOf single]) = none ↔ ¬[':', ' '] <:+: s := by
  induction s with
  | nil => cases single <;> decide
  | cons c s ih =>
    rw [escaped_cons, List.infix_cons_iff, not_or]
    split
    · rename_i hguarded
      -- Neither a quote nor a backslash is a colon or a space.
      rcases guarded_cases hguarded with ⟨rfl, rfl⟩ | ⟨rfl, rfl | rfl⟩ <;>
        simp [cutAtColon_cons_eq_none_iff, guardOf, ih]
    · have hnext : (escaped single s ++ [quoteOf single]).head? = some ' ' ↔
          s.head? = some ' ' := by
        cases s with
        | nil => cases single <;> decide
        | cons x s =>
          rw [escaped_cons]
          split
          · rename_i hguarded
            rcases guarded_cases hguarded with ⟨rfl, rfl⟩ | ⟨rfl, rfl | rfl⟩ <;> simp [guardOf]
          · simp
      have hprefix : [':', ' '] <+: c :: s ↔ c = ':' ∧ s.head? = some ' ' := by
        cases s <;> simp [List.cons_prefix_cons, eq_comm]
      rw [List.singleton_append, List.cons_append, cutAtColon_cons_eq_none_iff, hnext, hprefix, ih]
      simp

theorem cutKey_quoted_eq_none_iff_after {single : Bool} : cutKey (quoted single s) = none ↔
    cutAfterQuote (quoteOf single) (escaped single s ++ [quoteOf single]) = none := by
  rw [quoted, cutKey, if_pos (isQuote_quoteOf single)]
  cases cutAfterQuote (quoteOf single) (escaped single s ++ [quoteOf single]) <;> simp

/-- The search for the colon of a key stays out of the quoted text. -/
theorem cutKey_quoted_eq_none_iff {single : Bool} :
    cutKey (quoted single s) = none ↔ ¬[':', ' '] <:+: behindFirst single s := by
  rw [cutKey_quoted_eq_none_iff_after]
  by_cases hmem : quoteOf single ∈ s
  · obtain ⟨front, w, rfl, hfront⟩ := List.eq_append_cons_of_mem hmem
    rw [behindFirst_append hfront, ← cutAtColon_escaped_eq_none_iff single w, escaped_append,
      escaped_cons, if_pos (isGuarded_quoteOf single)]
    have hfront := quoteOf_notMem_escaped hfront
    cases single with
    | true =>
      -- The second of the two quotes comes before what is searched for a colon.
      have hsplit : escaped true front ++ ([guardOf true, quoteOf true] ++ escaped true w) ++
          [quoteOf true] =
          escaped true front ++ quoteOf true :: quoteOf true ::
          (escaped true w ++ [quoteOf true]) := by
        simp [guardOf, quoteOf]
      rw [hsplit, cutAfterQuote_append_eq_none_iff hfront, cutAtColon_cons_eq_none_iff]
      simp [quoteOf]
    | false =>
      have hsplit : escaped false front ++ ([guardOf false, quoteOf false] ++ escaped false w) ++
          [quoteOf false] =
          (escaped false front ++ ['\\']) ++ quoteOf false ::
          (escaped false w ++ [quoteOf false]) := by
        simp [guardOf]
      have hslash : quoteOf false ∉ escaped false front ++ ['\\'] := by
        simpa [quoteOf] using hfront
      rw [hsplit, cutAfterQuote_append_eq_none_iff hslash]
  · rw [behindFirst_of_notMem hmem, cutAfterQuote_append_eq_none_iff (quoteOf_notMem_escaped hmem)]
    decide

theorem cutKey_quoted_append {single : Bool} (h : cutKey (quoted single s) = none)
    (hrest : rest = [] ∨ rest.head? = some ' ') :
    cutKey (quoted single s ++ ':' :: rest) = some (quoted single s, rest) := by
  have hafter := cutAfterQuote_append_of_none (by simp) (cutKey_quoted_eq_none_iff_after.1 h) hrest
  rw [quoted, List.cons_append, cutKey, if_pos (isQuote_quoteOf single), hafter]

end colon

end Workflow.Outline
