import Workflow.Proofs.Generator.Agreement
import Mathlib.Data.List.Forall2
/-!
The skeleton of generated code: its lines without the bodies of comments and of literals. It depends
on the kinds of the steps, and on where there is a target or a condition, and on no text of the
document.
-/

namespace Workflow

open Generator

def Dialect.language (d : Dialect) : Language :=
  if d.name = "python" then .python else .javascript

/-- Two steps of one kind that have targets and a condition in the same places. -/
structure Step.SameShape (s t : Step) : Prop where
  kind : s.kind = t.kind
  next : s.kind = .task → s.successor?.isSome = t.successor?.isSome
  condition : s.kind = .decision → s.condition?.isSome = t.condition?.isSome
  onTrue : s.kind = .decision → s.branches.onTrue.isSome = t.branches.onTrue.isSome
  onFalse : s.kind = .decision → s.branches.onFalse.isSome = t.branches.onFalse.isSome

instance (s t : Step) : Decidable (s.SameShape t) :=
  decidable_of_iff (_ ∧ _ ∧ _ ∧ _ ∧ _)
    ⟨fun h => ⟨h.1, h.2.1, h.2.2.1, h.2.2.2.1, h.2.2.2.2⟩,
      fun h => ⟨h.kind, h.next, h.condition, h.onTrue, h.onFalse⟩⟩

def Process.SameShape (p q : Process) : Prop :=
  List.Forall₂ Step.SameShape p.steps q.steps

instance (p q : Process) : Decidable (p.SameShape q) :=
  inferInstanceAs (Decidable (List.Forall₂ Step.SameShape p.steps q.steps))

def blankText (text : Option String) : Option String :=
  text.map fun _ => ""

def Successor.blanked : Successor → Successor
  | .fixed target => .fixed (blankText target)
  | .branch condition onTrue onFalse =>
    .branch (blankText condition) (blankText onTrue) (blankText onFalse)

def Transition.blanked (t : Transition) : Transition :=
  ⟨"", t.kind, none, t.successor.blanked⟩

theorem blankText_eq {x y : Option String} (h : x.isSome = y.isSome) :
    blankText x = blankText y := by
  cases x <;> cases y <;> simp [blankText] at h ⊢

/-- Steps of one shape differ in their texts only. -/
theorem Step.SameShape.blanked_eq {s t : Step} (h : s.SameShape t) :
    s.transition.blanked = t.transition.blanked := by
  have hchoice : s.choice.blanked = t.choice.blanked := by
    unfold Step.choice
    rw [← h.kind]
    cases hk : s.kind with
    | task => exact congrArg Successor.fixed (blankText_eq (h.next hk))
    | finish => rfl
    | decision =>
      simp only [Successor.blanked, blankText_eq (h.condition hk), blankText_eq (h.onTrue hk),
        blankText_eq (h.onFalse hk)]
  simp only [Transition.blanked, Step.transition, hchoice, h.kind]

theorem Process.SameShape.blanked_eq {p q : Process} (h : p.SameShape q) :
    p.transitions.map Transition.blanked = q.transitions.map Transition.blanked := by
  have hsteps {xs ys : List Step} (hxy : List.Forall₂ Step.SameShape xs ys) :
      xs.map (fun s => s.transition.blanked) = ys.map fun s => s.transition.blanked := by
    induction hxy with
    | nil => rfl
    | cons hs _ ih => rw [List.map_cons, List.map_cons, hs.blanked_eq, ih]
  simp only [Process.transitions, List.map_map]
  exact hsteps h

end Workflow

namespace Workflow.Generator

inductive Zone
  | code
  | literal (delimiter : Char)
  /-- Behind a backslash in a literal. -/
  | escape (delimiter : Char)

/-- A line of code that was scanned: its skeleton, and the body of the comment at its end. -/
structure Scanned where
  skeleton : List Char
  remark : List Char

def Scanned.behind (w : List Char) (s : Scanned) : Scanned :=
  ⟨w ++ s.skeleton, s.remark⟩

def opensLiteral (c : Char) : Bool :=
  c == '\'' || c == '"'

/-- Scans a line of code in which `sign` begins a comment. A literal goes on to its delimiter, and a
character behind a backslash is none; both delimiters belong to the skeleton. -/
def scan (sign : List Char) : Zone → List Char → Scanned
  | _, [] => ⟨[], []⟩
  | .code, c :: r =>
    if sign.isPrefixOf (c :: r) then ⟨sign, (c :: r).drop sign.length⟩
    else (scan sign (if opensLiteral c then .literal c else .code) r).behind [c]
  | .literal d, c :: r =>
    if c = '\\' then scan sign (.escape d) r
    else if c = d then (scan sign .code r).behind [c]
    else scan sign (.literal d) r
  | .escape d, _ :: r => scan sign (.literal d) r

namespace Language

def scanned (l : Language) (line : List Char) : Scanned :=
  scan l.comment.toList .code line

def skeleton (l : Language) (line : List Char) : List Char :=
  (l.scanned line).skeleton

def remark (l : Language) (line : List Char) : List Char :=
  (l.scanned line).remark

end Language

def Plain (sign w : List Char) : Prop :=
  ∀ c ∈ w, opensLiteral c = false ∧ sign.head? ≠ some c

instance (sign w : List Char) : Decidable (Plain sign w) :=
  decidable_of_iff (w.all (fun c => !opensLiteral c && sign.head? != some c) = true)
  (by simp [Plain])

theorem Scanned.behind_behind (v w : List Char) (s : Scanned) :
    (s.behind w).behind v = s.behind (v ++ w) := by
  simp only [behind, List.append_assoc]

section scan

variable {sign : List Char} (filled : sign ≠ [])

include filled

theorem isPrefixOf_eq_false {c : Char} (h : sign.head? ≠ some c) (r : List Char) :
    sign.isPrefixOf (c :: r) = false := by
  obtain ⟨a, s, rfl⟩ := List.exists_cons_of_ne_nil filled
  have hne : a ≠ c := fun heq => h (congrArg some heq)
  simp [List.isPrefixOf, hne]

/-- Plain code is its own skeleton, whatever follows it. -/
theorem scan_plain {w : List Char} (h : Plain sign w) (r : List Char) :
    scan sign .code (w ++ r) = (scan sign .code r).behind w := by
  induction w with
  | nil => rfl
  | cons c w ih =>
    obtain ⟨hc, hw⟩ := List.forall_mem_cons.1 h
    rw [List.cons_append, scan, if_neg (by simp [isPrefixOf_eq_false filled hc.2]),
      if_neg (by simp [hc.1]), ih hw, Scanned.behind_behind]
    rfl

omit filled in
theorem scan_escapeIn (d c : Char) (r : List Char) :
    scan sign (.literal d) (escapeIn d c ++ r) = scan sign (.literal d) r := by
  rcases escapeIn_cases d c with ⟨x, hx⟩ | ⟨hc, hb, hne⟩
  · rw [hx, List.cons_append, List.singleton_append, scan, if_pos rfl, scan]
  · rw [hc, List.singleton_append, scan, if_neg hb, if_neg hne]

omit filled in
theorem scan_body (d : Char) (text r : List Char) :
    scan sign (.literal d) (text.flatMap (escapeIn d) ++ r) = scan sign (.literal d) r := by
  induction text with
  | nil => rfl
  | cons c text ih => rw [List.flatMap_cons, List.append_assoc, scan_escapeIn, ih]

/-- Of a literal the delimiters stay, whatever its text. -/
theorem scan_literal {d : Char} (hd : opensLiteral d = true) (hsign : sign.head? ≠ some d)
    (text r : List Char) :
    scan sign .code (literal d text ++ r) = (scan sign .code r).behind [d, d] := by
  have hslash : d ≠ '\\' := by
    rintro rfl
    exact absurd hd (by decide)
  have hclose : scan sign (.literal d) (d :: r) = (scan sign .code r).behind [d] := by
    rw [scan, if_neg hslash, if_pos rfl]
  -- The opening delimiter, the body, which leaves the scanner in the literal, and the closing
  -- delimiter.
  rw [literal, List.cons_append, scan, if_neg (by simp [isPrefixOf_eq_false filled hsign]),
    if_pos hd, List.append_assoc, scan_body, List.singleton_append, hclose, Scanned.behind_behind]
  rfl

theorem scan_comment (body : List Char) : scan sign .code (sign ++ body) = ⟨sign, body⟩ := by
  obtain ⟨a, s, rfl⟩ := List.exists_cons_of_ne_nil filled
  have hprefix : (a :: s).isPrefixOf (a :: (s ++ body)) = true := by
    rw [List.isPrefixOf_iff_prefix]
    exact ⟨body, rfl⟩
  rw [List.cons_append, scan, if_pos hprefix]
  simp

end scan

/-- A line that has no comment and is scanned like another. -/
structure Masked (l : Language) (line blank : String) : Prop where
  same : l.scanned line.toList = l.scanned blank.toList
  bare : l.remark line.toList = []

/-- What a language has to know of the lines of a dialect: which of them are comments, and that the
others differ in the bodies of literals at most. -/
structure Masks (l : Language) (d : Dialect) : Prop where
  filled : l.comment.toList ≠ []
  flush : l.comment.toList.head? ≠ some ' '
  comment : ∀ text, (d.comment text).toList = l.comment.toList ++ ' ' :: text.toList
  fixed : ∀ line ∈ d.preamble ++ d.functionOpen :: d.declare nextVariable d.null :: d.elseOpen ::
    (d.ifClose.toList ++ d.emptyBody ++ d.functionClose.toList), l.remark line.toList = []
  assign : ∀ target, Masked l (d.assign nextVariable (targetLiteral d target))
    (d.assign nextVariable (targetLiteral d (blankText target)))
  ifOpen : ∀ condition, Masked l (d.ifOpen (test d condition))
    (d.ifOpen (test d (blankText condition)))
  emit : ∀ step, Masked l (d.yieldPair (quote step) nextVariable)
    (d.yieldPair (quote "") nextVariable)

structure Frame (sign : List Char) (d : Char) (before after : String) : Prop where
  opens : opensLiteral d = true
  apart : sign.head? ≠ some d
  before : Plain sign before.toList
  after : Plain sign after.toList

/-- A line that is plain code around a literal. -/
theorem Frame.masked {l : Language} {d : Char} {before after : String}
    (h : Frame l.comment.toList d before after) (filled : l.comment.toList ≠ []) (text : List Char)
    {line blank : String} (hline : line.toList = before.toList ++ (literal d text ++ after.toList))
    (hblank : blank.toList = before.toList ++ (literal d [] ++ after.toList)) :
    Masked l line blank := by
  have hrest : scan l.comment.toList .code after.toList = ⟨after.toList, []⟩ := by
    have hafter := scan_plain filled h.after []
    rw [List.append_nil, scan] at hafter
    simpa [Scanned.behind] using hafter
  have hscan (t : List Char) : l.scanned (before.toList ++ (literal d t ++ after.toList)) =
      ⟨before.toList ++ ([d, d] ++ after.toList), []⟩ := by
    rw [Language.scanned, scan_plain filled h.before, scan_literal filled h.opens h.apart, hrest]
    rfl
  refine ⟨?_, ?_⟩
  · rw [hline, hblank, hscan, hscan]
  · rw [Language.remark, hline, hscan]

/-- Of the lines in Python only the comments and the bodies of literals depend on texts. -/
theorem masks_python : Masks .python .python where
  filled := by decide
  flush := by decide
  comment text := by simp [Dialect.python, Language.python]
  fixed := by decide
  assign target := by
    -- The text stands in a literal between plain code, so that only the body of the literal
    -- differs.
    have hframe : Frame Language.python.comment.toList '\'' "next_step = " "" := by
      constructor <;> decide
    cases target with
    | none => exact ⟨rfl, by decide⟩
    | some id =>
      apply hframe.masked (by decide) id.toList
      · simp [Dialect.python, targetLiteral, quote, nextVariable]
      · simp [Dialect.python, targetLiteral, quote, nextVariable, blankText]
  ifOpen condition := by
    have hframe : Frame Language.python.comment.toList '"' "if eval(" ", \x7b\x7d, context):" := by
      constructor <;> decide
    cases condition with
    | none => exact ⟨rfl, by decide⟩
    | some condition =>
      apply hframe.masked (by decide) condition.toList
      · simp [Dialect.python, test, doubleQuote]
      · simp [Dialect.python, test, doubleQuote, blankText]
  emit step := by
    have hframe : Frame Language.python.comment.toList '\'' "yield " ", next_step" := by
      constructor <;> decide
    apply hframe.masked (by decide) step.toList
    · simp [Dialect.python, quote, nextVariable]
    · simp [Dialect.python, quote, nextVariable]

/-- Of the lines in JavaScript only the comments and the bodies of literals depend on texts. -/
theorem masks_javascript : Masks .javascript .javascript where
  filled := by decide
  flush := by decide
  comment text := by simp [Dialect.javascript, Language.javascript]
  fixed := by decide
  assign target := by
    have hframe : Frame Language.javascript.comment.toList '\'' "next_step = " ";" := by
      constructor <;> decide
    cases target with
    | none => exact ⟨rfl, by decide⟩
    | some id =>
      apply hframe.masked (by decide) id.toList
      · simp [Dialect.javascript, targetLiteral, quote, nextVariable]
      · simp [Dialect.javascript, targetLiteral, quote, nextVariable, blankText]
  ifOpen condition := by
    have hframe : Frame Language.javascript.comment.toList '"' "if (evaluate("
        ", context)) \x7b" := by
      constructor <;> decide
    cases condition with
    | none => exact ⟨rfl, by decide⟩
    | some condition =>
      apply hframe.masked (by decide) condition.toList
      · simp [Dialect.javascript, test, doubleQuote]
      · simp [Dialect.javascript, test, doubleQuote, blankText]
  emit step := by
    have hframe : Frame Language.javascript.comment.toList '\'' "yield [" ", next_step];" := by
      constructor <;> decide
    apply hframe.masked (by decide) step.toList
    · simp [Dialect.javascript, quote, nextVariable]
    · simp [Dialect.javascript, quote, nextVariable]

theorem toList_indented_succ (n : Nat) (line : String) :
    (indented (n + 1) line).toList = [' ', ' ', ' ', ' '] ++ (indented n line).toList := by
  rw [toList_indented, toList_indented, Nat.mul_succ,
    Nat.add_comm, ← List.replicate_append_replicate, List.append_assoc]
  rfl

section lines

variable {l : Language} {d : Dialect} (h : Masks l d)

include h

theorem Masks.scanned_indented (n : Nat) (line : String) :
    l.scanned (indented n line).toList = (l.scanned line.toList).behind
    (List.replicate (4 * n) ' ') := by
  have hplain : Plain l.comment.toList (List.replicate (4 * n) ' ') := by
    intro c hc
    rw [List.eq_of_mem_replicate hc]
    exact ⟨by decide, h.flush⟩
  rw [toList_indented, Language.scanned, scan_plain h.filled hplain]
  rfl

theorem Masks.remark_indented (n : Nat) (line : String) :
    l.remark (indented n line).toList = l.remark line.toList := by
  rw [Language.remark, h.scanned_indented]
  rfl

theorem Masks.scanned_comment (text : String) :
    l.scanned (d.comment text).toList = ⟨l.comment.toList, ' ' :: text.toList⟩ := by
  rw [h.comment, Language.scanned, scan_comment h.filled]

theorem Masks.skeleton_indented {line blank : String} (hm : Masked l line blank) (n : Nat) :
    l.skeleton (indented n line).toList = l.skeleton (indented n blank).toList := by
  rw [Language.skeleton, Language.skeleton, h.scanned_indented, h.scanned_indented, hm.same]

theorem Masks.skeleton_commentLine (text blank : String) :
    l.skeleton (commentLine d text).toList = l.skeleton (commentLine d blank).toList := by
  simp only [Language.skeleton, commentLine, h.scanned_indented, h.scanned_comment, Scanned.behind]

end lines

/-- The lines of a step have the skeletons of the same lines without texts. -/
theorem Masks.skeleton_stepLines {l : Language} {d : Dialect} (h : Masks l d) (t : Transition) :
    (stepLines d t).map (fun line => l.skeleton line.toList) =
      (stepLines d t.blanked).map fun line => l.skeleton line.toList := by
  have hassign (n : Nat) (target : Option String) : l.skeleton (assignLine d n target).toList =
      l.skeleton (assignLine d n (blankText target)).toList :=
        h.skeleton_indented (h.assign target) n
  have hactor : (actorLines d t).map (fun line => l.skeleton line.toList) =
      (actorLines d t.blanked).map fun line => l.skeleton line.toList := by
    unfold actorLines
    rw [Transition.blanked]
    split
    · exact congrArg (fun s => [s]) (h.skeleton_commentLine _ _)
    · rfl
  -- Blanking keeps the form of the successor, so that the lines correspond.
  have hchoice : (choiceLines d t).map (fun line => l.skeleton line.toList) =
      (choiceLines d t.blanked).map fun line => l.skeleton line.toList := by
    cases hs : t.successor with
    | fixed target =>
      have hblank : t.blanked.successor = .fixed (blankText target) := by
        rw [Transition.blanked, hs]
        rfl
      simp only [choiceLines, hs, hblank, List.map_append, hactor, List.map_cons,
        List.map_nil, ← hassign]
    | branch condition onTrue onFalse =>
      have hblank : t.blanked.successor =
          .branch (blankText condition) (blankText onTrue) (blankText onFalse) := by
        rw [Transition.blanked, hs]
        rfl
      have hopen := h.skeleton_indented (h.ifOpen condition) 1
      simp only [choiceLines, hs, hblank, List.map_append, List.map_cons, List.map_nil, ← hassign,
        hopen]
  have hhead := h.skeleton_commentLine (t.step ++ " (" ++ t.kind.name ++ ")")
    (t.blanked.step ++ " (" ++ t.blanked.kind.name ++ ")")
  have hemit := h.skeleton_indented (h.emit t.step) 1
  simp only [stepLines, List.map_cons, List.map_append, List.map_nil, hchoice, hhead, hemit]
  rfl

theorem Masks.skeleton_bodyLines {l : Language} {d : Dialect} (h : Masks l d)
    (ts : List Transition) :
    (bodyLines d ts).map (fun line => l.skeleton line.toList) =
      (bodyLines d (ts.map Transition.blanked)).map fun line => l.skeleton line.toList := by
  have hsteps (us : List Transition) : (us.flatMap (stepLines d)).map
      (fun line => l.skeleton line.toList) =
      ((us.map Transition.blanked).flatMap (stepLines d)).map fun line =>
        l.skeleton line.toList := by
    induction us with
    | nil => rfl
    | cons u us ih =>
      rw [List.flatMap_cons, List.map_append, h.skeleton_stepLines, ih, List.map_cons,
        List.flatMap_cons, List.map_append]
  cases ts with
  | nil => rfl
  | cons t ts => exact hsteps (t :: ts)

/-- The lines between the head of the function and its end stand inside it. -/
theorem exists_written_of_mem_bodyLines {d : Dialect} {ts : List Transition} {line : String}
    (h : line ∈ bodyLines d ts) : ∃ n s, (Written d s ∨ s ∈ d.emptyBody) ∧
      line = indented (n + 1) s := by
  cases ts with
  | nil =>
    obtain ⟨s, hs, rfl⟩ := List.mem_map.1 h
    exact ⟨0, s, Or.inr hs, rfl⟩
  | cons t ts =>
    rw [bodyLines] at h
    · obtain ⟨u, -, hline⟩ := List.mem_flatMap.1 h
      obtain ⟨n, s, hs, rfl⟩ := exists_written_of_mem_stepLines hline
      exact ⟨n, s, Or.inl hs, rfl⟩
    · simp

theorem Masked.printable_remark {l : Language} {line blank : String} (h : Masked l line blank) :
    ∀ c ∈ l.remark line.toList, Printable c := by
  simp [h.bare]

section remarks

variable {l : Language} {d : Dialect} (h : Masks l d)

include h

theorem Masks.printable_remark_fixed {line : String}
    (hline : line ∈ d.preamble ++ d.functionOpen :: d.declare nextVariable d.null :: d.elseOpen ::
      (d.ifClose.toList ++ d.emptyBody ++ d.functionClose.toList)) :
    ∀ c ∈ l.remark line.toList, Printable c := by
  simp [h.fixed line hline]

/-- Of the lines of a step the comments alone have a remark. -/
theorem Masks.printable_remark_written {line : String} (hw : Written d line) :
    ∀ c ∈ l.remark line.toList, Printable c := by
  cases hw with
  | comment text =>
    rw [Language.remark, h.scanned_comment]
    exact List.forall_mem_cons.2 ⟨by decide, printable_singleLine text⟩
  | assign target => exact (h.assign target).printable_remark
  | ifOpen condition => exact (h.ifOpen condition).printable_remark
  | elseOpen => exact h.printable_remark_fixed (by simp)
  | ifClose hline => exact h.printable_remark_fixed (by simp [hline])
  | emit step => exact (h.emit step).printable_remark

theorem Masks.printable_remark_allLines (p : Process) :
    ∀ line ∈ allLines d p, ∀ c ∈ l.remark line.toList, Printable c := by
  intro line hline
  simp only [allLines, List.mem_append, List.mem_cons] at hline
  rcases hline with hl | rfl | rfl | hl | hl
  · exact h.printable_remark_fixed (by simp [hl])
  · exact h.printable_remark_fixed (by simp)
  · rw [h.remark_indented]
    exact h.printable_remark_fixed (by simp)
  · obtain ⟨n, s, hs, rfl⟩ := exists_written_of_mem_bodyLines hl
    rw [h.remark_indented]
    rcases hs with hs | hs
    · exact h.printable_remark_written hs
    · exact h.printable_remark_fixed (by simp [hs])
  · exact h.printable_remark_fixed (by simp [hl])

end remarks

theorem Masks.skeleton_allLines {l : Language} {d : Dialect} (h : Masks l d) {p q : Process}
    (hpq : p.SameShape q) :
    (allLines d p).map (fun line => l.skeleton line.toList) =
      (allLines d q).map fun line => l.skeleton line.toList := by
  have hbody : (bodyLines d p.transitions).map (fun line => l.skeleton line.toList) =
      (bodyLines d q.transitions).map fun line => l.skeleton line.toList := by
    rw [h.skeleton_bodyLines p.transitions, h.skeleton_bodyLines q.transitions, hpq.blanked_eq]
  simp only [allLines, List.map_append, List.map_cons, hbody]

theorem printable_remark_generate {l : Language} {d : Dialect} (hm : Masks l d) (hr : Reads l d)
    (p : Process) :
    ∀ line ∈ codeLines (p.generate d), ∀ c ∈ l.remark line, Printable c := by
  intro line hline
  rw [codeLines_generate hr] at hline
  obtain ⟨s, hs, rfl⟩ := List.mem_map.1 hline
  exact hm.printable_remark_allLines p s hs

/-- The lines between the head of the function and its end begin with four spaces. -/
theorem exists_inside_generate {l : Language} {d : Dialect} (hr : Reads l d) (p : Process) :
    ∃ inner, codeLines (p.generate d) =
        l.head.map String.toList ++ inner ++ d.functionClose.toList.map String.toList ∧
      ∀ line ∈ inner, "    ".toList <+: line := by
  refine ⟨(indented 1 (d.declare nextVariable d.null) :: bodyLines d p.transitions).map
    String.toList, ?_, ?_⟩
  · simp [codeLines_generate hr, allLines, hr.head]
  · intro line hline
    obtain ⟨s, hs, rfl⟩ := List.mem_map.1 hline
    -- All of these lines are written at depth one at least.
    have hin : ∃ n text, s = indented (n + 1) text := by
      rcases List.mem_cons.1 hs with rfl | hs
      · exact ⟨0, _, rfl⟩
      · obtain ⟨n, text, -, rfl⟩ := exists_written_of_mem_bodyLines hs
        exact ⟨n, text, rfl⟩
    obtain ⟨n, text, rfl⟩ := hin
    rw [toList_indented_succ]
    exact List.prefix_append _ _

end Workflow.Generator

namespace Workflow

open Generator

/-- The skeleton of generated code depends on the shapes of the steps alone: there are the same
lines, equal but for the bodies of literals and comments. A comment holds printable characters only,
and the lines between the head of the function and its end stand inside it. -/
theorem generate_keeps_skeleton (p q : Process) :
    ∀ d ∈ Dialect.all,
      (p.SameShape q →
        (codeLines (p.generate d)).map d.language.skeleton =
          (codeLines (q.generate d)).map d.language.skeleton) ∧
      (∀ line ∈ codeLines (p.generate d), ∀ c ∈ d.language.remark line,
        ¬IsControl c ∧ c ≠ '\u2028' ∧ c ≠ '\u2029') ∧
      ∃ inner, codeLines (p.generate d) =
          d.language.head.map String.toList ++ inner ++ d.functionClose.toList.map String.toList ∧
        ∀ line ∈ inner, "    ".toList <+: line := by
  have hkeeps {l : Language} {d : Dialect} (hm : Masks l d) (hr : Reads l d) :
      (p.SameShape q →
        (codeLines (p.generate d)).map l.skeleton = (codeLines (q.generate d)).map l.skeleton) ∧
      (∀ line ∈ codeLines (p.generate d), ∀ c ∈ l.remark line,
        ¬IsControl c ∧ c ≠ '\u2028' ∧ c ≠ '\u2029') ∧
      ∃ inner, codeLines (p.generate d) =
          l.head.map String.toList ++ inner ++ d.functionClose.toList.map String.toList ∧
        ∀ line ∈ inner, "    ".toList <+: line := by
    refine ⟨?_, ?_, exists_inside_generate hr p⟩
    · intro hpq
      -- No text of a process ends a line, so the lines of the code are those that were written.
      simpa only [codeLines_generate hr, List.map_map, Function.comp_def]
        using hm.skeleton_allLines hpq
    · intro line hline c hc
      have hprint := printable_remark_generate hm hr p line hline c hc
      exact ⟨hprint.control, hprint.line, hprint.paragraph⟩
  intro d hd
  simp only [Dialect.all, List.mem_cons, List.not_mem_nil, or_false] at hd
  rcases hd with rfl | rfl
  · exact hkeeps masks_python reads_python
  · exact hkeeps masks_javascript reads_javascript

/-- A process of the shape of the hostile one, with plain words for texts. -/
def tameProcess : Process where
  name := "tame"
  steps :=
    [{ id := "a", kind := .task, actor := some "clerk", next := some "b" },
     { id := "b", kind := .decision, condition := some "x", branches := ⟨none, some "c"⟩ },
     { id := "c", kind := .finish }]

theorem generate_keeps_skeleton_hostile :
    hostileProcess.SameShape tameProcess ∧
    (codeLines (hostileProcess.generate .python)).map Language.python.skeleton =
      (codeLines (tameProcess.generate .python)).map Language.python.skeleton ∧
    (codeLines (hostileProcess.generate .javascript)).map Language.javascript.skeleton =
      (codeLines (tameProcess.generate .javascript)).map Language.javascript.skeleton := by
  have hshape : hostileProcess.SameShape tameProcess := by decide +kernel
  have hkept := generate_keeps_skeleton hostileProcess tameProcess
  exact ⟨hshape, (hkept .python (.head _)).1 hshape,
    (hkept .javascript (.tail _ (.head _))).1 hshape⟩

end Workflow
