import Workflow.Proofs.Generator.Execution
import Workflow.Proofs.Generator.Comment
import Workflow.Proofs.Text.Pieces

namespace Workflow.Generator

theorem dropWord_append (word r : List Char) : dropWord word (word ++ r) = some r := by
  induction word with
  | nil => rfl
  | cons a w ih => simpa [dropWord] using ih

/-- What stands for a character in a literal is a backslash and one more character, or the character
itself. -/
theorem escapeIn_cases (d c : Char) :
    (∃ x, escapeIn d c = ['\\', x]) ∨ escapeIn d c = [c] ∧ c ≠ '\\' ∧ c ≠ d := by
  unfold escapeIn
  split_ifs with hb hd hn hr
  · exact Or.inl ⟨_, rfl⟩
  · exact Or.inl ⟨_, rfl⟩
  · exact Or.inl ⟨_, rfl⟩
  · exact Or.inl ⟨_, rfl⟩
  · exact Or.inr ⟨rfl, hb, hd⟩

/-- One escaped character is read back, whatever follows it. -/
theorem closeLiteral_escapeIn {d : Char} (hd : d = '\'' ∨ d = '"') (c : Char)
    {s text rest : List Char} (h : closeLiteral d s = some (text, rest)) :
    closeLiteral d (escapeIn d c ++ s) = some (c :: text, rest) := by
  by_cases hb : c = '\\'
  · subst hb
    simp [escapeIn, closeLiteral, unescape?, h]
  by_cases hc : c = d
  · subst hc
    rcases hd with rfl | rfl <;> simp [escapeIn, closeLiteral, unescape?, h]
  by_cases hn : c = '\n'
  · subst hn
    rcases hd with rfl | rfl <;> simp [escapeIn, closeLiteral, unescape?, h]
  by_cases hr : c = '\r'
  · subst hr
    rcases hd with rfl | rfl <;> simp [escapeIn, closeLiteral, unescape?, h]
  · have he : escapeIn d c = [c] := by simp [escapeIn, hb, hc, hn, hr]
    rw [he, List.singleton_append, closeLiteral.eq_4 d c s (by simp [hb]) (by simp [hb]), if_neg hc,
      h]
    rfl

/-- A literal is read back as its text and ends where it was closed. -/
theorem closeLiteral_flatMap {d : Char} (hd : d = '\'' ∨ d = '"') (text rest : List Char) :
    closeLiteral d (text.flatMap (escapeIn d) ++ d :: rest) = some (text, rest) := by
  induction text with
  | nil =>
    rcases hd with rfl | rfl <;> simp [closeLiteral]
  | cons c text ih =>
    rw [List.flatMap_cons, List.append_assoc]
    exact closeLiteral_escapeIn hd c ih

theorem readLiteral_quote (text : String) (rest : List Char) :
    readLiteral '\'' ((quote text).toList ++ rest) = some (text, rest) := by
  have h := closeLiteral_flatMap (Or.inl rfl) text.toList rest
  simp [readLiteral, quote, literal, dropWord, h]

theorem readLiteral_doubleQuote (text : String) (rest : List Char) :
    readLiteral '"' ((doubleQuote text).toList ++ rest) = some (text, rest) := by
  have h := closeLiteral_flatMap (Or.inr rfl) text.toList rest
  simp [readLiteral, doubleQuote, literal, dropWord, h]

def Unbroken (s : List Char) : Prop :=
  ∀ c ∈ s, endsLine c = false

instance (s : List Char) : Decidable (Unbroken s) :=
  decidable_of_iff (s.all (fun c => !endsLine c) = true) (by simp [Unbroken])

theorem Unbroken.append {s t : List Char} (hs : Unbroken s) (ht : Unbroken t) :
    Unbroken (s ++ t) := by
  intro c hc
  rcases List.mem_append.1 hc with h | h
  · exact hs c h
  · exact ht c h

theorem unbroken_flatMap {f : Char → List Char} (h : ∀ c, Unbroken (f c)) (s : List Char) :
    Unbroken (s.flatMap f) := by
  intro c hc
  obtain ⟨x, -, hx⟩ := List.mem_flatMap.1 hc
  exact h x c hx

theorem unbroken_escapeIn {d : Char} (hd : endsLine d = false) (c : Char) :
    Unbroken (escapeIn d c) := by
  unfold escapeIn
  split
  · decide
  · split
    · simp [Unbroken, hd]
      decide
    · split
      · decide
      · split
        · decide
        · rename_i hn hr
          simp [Unbroken, endsLine, hn, hr]

theorem unbroken_literal {d : Char} (hd : endsLine d = false) (text : List Char) :
    Unbroken (literal d text) := by
  intro c hc
  rw [literal, List.mem_cons, List.mem_append, List.mem_singleton] at hc
  rcases hc with rfl | hc | rfl
  · exact hd
  · exact unbroken_flatMap (unbroken_escapeIn hd) text c hc
  · exact hd

theorem unbroken_quote (text : String) : Unbroken (quote text).toList := by
  rw [quote, String.toList_ofList]
  exact unbroken_literal rfl _

theorem unbroken_doubleQuote (text : String) : Unbroken (doubleQuote text).toList := by
  rw [doubleQuote, String.toList_ofList]
  exact unbroken_literal rfl _

theorem Printable.endsLine_eq_false {c : Char} (h : Printable c) : endsLine c = false := by
  rw [endsLine, Bool.or_eq_false_iff, beq_eq_false_iff_ne, beq_eq_false_iff_ne]
  constructor
  · rintro rfl
    exact h.control (by decide)
  · rintro rfl
    exact h.control (by decide)

theorem unbroken_singleLine (text : String) : Unbroken (singleLine text).toList :=
  fun c hc => (printable_singleLine text c hc).endsLine_eq_false

theorem toList_indented (n : Nat) (line : String) :
    (indented n line).toList = List.replicate (4 * n) ' ' ++ line.toList := by
  rw [indented, String.toList_append, String.toList_ofList]

/-- What the language reads in a line that is written without spaces in front. -/
structure Says (l : Language) (line : String) (c : Command) : Prop where
  read : l.command line.toList = some c
  unbroken : Unbroken line.toList
  flush : line.toList.head? ≠ some ' '

namespace Says

variable {l : Language} {line : String} {c : Command}

theorem takeWhile_nil (h : Says l line c) : line.toList.takeWhile (· == ' ') = [] := by
  have hf := h.flush
  cases hl : line.toList with
  | nil => rfl
  | cons x r =>
    rw [hl, List.head?_cons, ne_eq, Option.some.injEq] at hf
    simp [hf]

theorem depth_indented (h : Says l line c) (n : Nat) :
    Language.depth (indented n line).toList = 4 * n := by
  rw [Language.depth, toList_indented, List.takeWhile_append_of_pos (by simp), h.takeWhile_nil,
    List.append_nil, List.length_replicate]

theorem command_indented (h : Says l line c) (n : Nat) :
    l.command (indented n line).toList = some c := by
  have hd : (indented n line).toList.dropWhile (· == ' ') = line.toList.dropWhile (· == ' ') := by
    rw [toList_indented, List.dropWhile_append_of_pos (by simp)]
  rw [← h.read]
  simp only [Language.command, hd]

/-- A line moves the execution by its command. -/
theorem step_indented (h : Says l line c) (n : Nat) (holds : String → Bool) {s : Execution}
    (hs : s.mode ≠ .returned) :
    s.step l holds (indented n line).toList = s.commandStep l holds (4 * n) c := by
  rw [Execution.step, if_neg hs, h.command_indented n, h.depth_indented n]
  rfl

theorem unbroken_indented (h : Says l line c) (n : Nat) : Unbroken (indented n line).toList := by
  rw [toList_indented]
  refine Unbroken.append (fun x hx => ?_) h.unbroken
  rw [List.eq_of_mem_replicate hx]
  rfl

end Says

theorem dropWord_eq_none {word s : List Char} (h : s.head? ≠ word.head?) (hw : word ≠ []) :
    dropWord word s = none := by
  cases word with
  | nil => exact absurd rfl hw
  | cons a w =>
    cases s with
    | nil => rfl
    | cons b r =>
      rw [List.head?_cons, List.head?_cons, ne_eq, Option.some.injEq] at h
      rw [dropWord, if_neg (Ne.symm h)]

/-- What follows the first word of a form is read up to its last word. -/
theorem Form.read_append {f : Form} {s : List Char} {c : Command}
    (h : f.part (s ++ f.after.toList) = some (c, f.after.toList)) :
    f.read (f.before.toList ++ (s ++ f.after.toList)) = some c := by
  rw [Form.read, dropWord_append, Option.bind_some, h]
  exact if_pos rfl

/-- A line that begins otherwise is not of a form. -/
theorem Form.read_eq_none {f : Form} {s : List Char} (h : s.head? ≠ f.before.toList.head?)
    (hw : f.before.toList ≠ []) : f.read s = none := by
  rw [Form.read, dropWord_eq_none h hw]
  rfl

/-- The literal of a target is read back; the word for no target begins no literal. -/
theorem readTarget_targetLiteral (d : Dialect) (h : d.null.toList.head? ≠ some '\'')
    (hn : d.null.toList ≠ []) (target : Option String) (r : List Char) :
    readTarget d.null ((targetLiteral d target).toList ++ r) = some (target, r) := by
  cases target with
  | none => rw [targetLiteral, readTarget, dropWord_append]
  | some id =>
    have hq : ((quote id).toList ++ r).head? ≠ d.null.toList.head? := by
      intro he
      rw [quote, String.toList_ofList, literal, List.cons_append, List.head?_cons] at he
      exact h he.symm
    rw [targetLiteral, readTarget, dropWord_eq_none hq hn]
    simp only [readLiteral_quote, Option.map_some]

/-- The test of a condition is read back as the condition. -/
theorem readTest_condition (falsehood opening closing condition : String) (r : List Char)
    (hf : opening.toList.head? ≠ falsehood.toList.head?) (hn : falsehood.toList ≠ [])
    (ho : opening.toList ≠ []) :
    readTest falsehood opening closing
      ((opening.toList ++ ((doubleQuote condition).toList ++ closing.toList)) ++ r) =
      some (some condition, r) := by
  have hd : dropWord falsehood.toList
      (opening.toList ++ ((doubleQuote condition).toList ++ (closing.toList ++ r))) = none := by
    refine dropWord_eq_none ?_ hn
    obtain ⟨a, w, he⟩ := List.exists_cons_of_ne_nil ho
    rw [he] at hf ⊢
    exact hf
  simp only [List.append_assoc, readTest, hd, dropWord_append, Option.bind_some,
    readLiteral_doubleQuote, Option.map_some]

theorem readTest_none (falsehood opening closing : String) (r : List Char) :
    readTest falsehood opening closing (falsehood.toList ++ r) = some (none, r) := by
  rw [readTest, dropWord_append]

theorem unbroken_targetLiteral (d : Dialect) (h : Unbroken d.null.toList) (target : Option String) :
    Unbroken (targetLiteral d target).toList := by
  cases target with
  | none => exact h
  | some id => exact unbroken_quote id

/-- The first word of a form is unlike a comment and unlike the forms that are tried before it. -/
structure Form.StandsOut (l : Language) (earlier : List Form) (f : Form) : Prop where
  filled : f.before.toList ≠ []
  flush : f.before.toList.head? ≠ some ' '
  comment : f.before.toList.head? ≠ l.comment.toList.head? ∧ l.comment.toList ≠ []
  earlier : ∀ g ∈ earlier, f.before.toList.head? ≠ g.before.toList.head? ∧ g.before.toList ≠ []
  unbroken : Unbroken f.before.toList ∧ Unbroken f.after.toList

/-- A line that is written in a form says what its part says. -/
theorem Form.StandsOut.commands {l : Language} {earlier later : List Form} {f : Form}
    (hf : f.StandsOut l earlier) (hl : l.forms = earlier ++ f :: later) {line : String}
    {s : List Char} {c : Command} (hline : line.toList = f.before.toList ++ (s ++ f.after.toList))
    (hs : f.part (s ++ f.after.toList) = some (c, f.after.toList)) (hu : Unbroken s) :
    Says l line c := by
  have hhead : line.toList.head? = f.before.toList.head? := by
    obtain ⟨a, w, he⟩ := List.exists_cons_of_ne_nil hf.filled
    rw [hline, he]
    rfl
  have hflush : line.toList.head? ≠ some ' ' := hhead ▸ hf.flush
  have hnil : line.toList ≠ [] := by
    rw [hline]
    exact List.append_ne_nil_of_left_ne_nil hf.filled _
  -- The forms that are tried earlier begin with another character.
  have hearlier : earlier.findSome? (·.read line.toList) = none := by
    refine List.findSome?_eq_none_iff.2 fun g hg => ?_
    exact Form.read_eq_none (hhead ▸ (hf.earlier g hg).1) (hf.earlier g hg).2
  have hread : l.forms.findSome? (·.read line.toList) = some c := by
    rw [hl, List.findSome?_append, hearlier, Option.none_or, List.findSome?_cons, hline,
      Form.read_append hs]
  refine ⟨?_, ?_, hflush⟩
  · have hd : line.toList.dropWhile (· == ' ') = line.toList := by
      obtain ⟨a, w, he⟩ := List.exists_cons_of_ne_nil hnil
      rw [he, List.head?_cons, ne_eq, Option.some.injEq] at hflush
      simp [he, hflush]
    have hc : dropWord l.comment.toList line.toList = none :=
      dropWord_eq_none (hhead ▸ hf.comment.1) hf.comment.2
    simp only [Language.command, hd, hc, hread, List.isEmpty_eq_false_iff.2 hnil,
      Option.isSome_none, Bool.or_self, Bool.false_eq_true, if_false]
  · rw [hline]
    exact hf.unbroken.1.append (hu.append hf.unbroken.2)

/-- A comment is passed over, whatever its text. -/
theorem says_comment {l : Language} {line : String} {r : List Char}
    (hl : line.toList = l.comment.toList ++ r) (hf : l.comment.toList.head? ≠ some ' ')
    (hn : l.comment.toList ≠ []) (hc : Unbroken l.comment.toList) (hr : Unbroken r) :
    Says l line .idle := by
  have hhead : line.toList.head? = l.comment.toList.head? := by
    obtain ⟨a, w, he⟩ := List.exists_cons_of_ne_nil hn
    rw [hl, he]
    rfl
  refine ⟨?_, hl ▸ hc.append hr, hhead ▸ hf⟩
  have hd : line.toList.dropWhile (· == ' ') = line.toList := by
    obtain ⟨a, w, he⟩ := List.exists_cons_of_ne_nil hn
    rw [he, List.head?_cons, ne_eq, Option.some.injEq] at hf
    rw [hl, he, List.cons_append]
    simp [hf]
  simp only [Language.command, hd]
  rw [hl, dropWord_append, Option.isSome_some, Bool.or_true, if_pos rfl]

/-- A language reads the lines of a dialect as what they are meant to say. -/
structure Reads (l : Language) (d : Dialect) : Prop where
  head : l.head = d.preamble ++ [d.functionOpen]
  declare : Says l (d.declare nextVariable d.null)
    (if l.indented then .assign none else .declare none)
  comment : ∀ text, Says l (d.comment (singleLine text)) .idle
  assign : ∀ target, Says l (d.assign nextVariable (targetLiteral d target)) (.assign target)
  ifOpen : ∀ condition, Says l (d.ifOpen (test d condition)) (.ifOpen condition)
  elseOpen : Says l d.elseOpen .elseOpen
  ifClose : if l.indented then d.ifClose = none else ∃ line, d.ifClose = some line ∧
    Says l line .close
  emit : ∀ step, Says l (d.yieldPair (quote step) nextVariable) (.emit step)
  /-- At the end of the body the function ends, and nothing more is yielded. -/
  finish : ∀ holds output successor,
    Execution.run l holds (d.functionClose.toList.map String.toList) ⟨.body, successor, output⟩ =
      some ⟨if l.indented then .body else .closed, successor, output⟩
  /-- So it does where there is nothing to yield. -/
  finishEmpty : ∀ holds output successor, ∃ s, s.isFinal l = true ∧ s.output = output ∧
    Execution.run l holds ((bodyLines d [] ++ d.functionClose.toList).map String.toList)
      ⟨.body, successor, output⟩ = some s
  unbroken : ∀ line ∈ d.preamble ++ d.functionOpen :: (bodyLines d [] ++ d.functionClose.toList),
    Unbroken line.toList

section forms

variable {l : Language} {d : Dialect} {earlier later : List Form} {line before after : String}

/-- A line around the literal of a target says the command with that target. -/
theorem says_target {command : Option String → Command}
    (hf : (Form.target before d.null after command).StandsOut l earlier)
    (hl : l.forms = earlier ++ Form.target before d.null after command :: later)
    (hq : d.null.toList.head? ≠ some '\'') (hn : d.null.toList ≠ []) (hu : Unbroken d.null.toList)
    (target : Option String)
    (hline : line.toList = before.toList ++ ((targetLiteral d target).toList ++ after.toList)) :
    Says l line (command target) := by
  refine hf.commands hl hline ?_ (unbroken_targetLiteral d hu target)
  simp only [Form.target, readTarget_targetLiteral d hq hn, Option.map_some]

/-- A line around the literal of a step yields that step. -/
theorem says_step (hf : (Form.step before after).StandsOut l earlier)
    (hl : l.forms = earlier ++ Form.step before after :: later) (step : String)
    (hline : line.toList = before.toList ++ ((quote step).toList ++ after.toList)) :
    Says l line (.emit step) := by
  refine hf.commands hl hline ?_ (unbroken_quote step)
  simp only [Form.step, readLiteral_quote, Option.map_some]

/-- A line around a test opens a decision with the condition of the test. -/
theorem says_decision {opening closing : String}
    (hf : (Form.decision before d.falsehood opening closing after).StandsOut l earlier)
    (hl : l.forms = earlier ++ Form.decision before d.falsehood opening closing after :: later)
    (heval : ∀ c, (d.evaluate c).toList = opening.toList ++
      ((doubleQuote c).toList ++ closing.toList))
    (hne : opening.toList.head? ≠ d.falsehood.toList.head?) (hn : d.falsehood.toList ≠ [])
    (ho : opening.toList ≠ [])
    (hu : Unbroken d.falsehood.toList ∧ Unbroken opening.toList ∧ Unbroken closing.toList)
    (condition : Option String)
    (hline : line.toList = before.toList ++ ((test d condition).toList ++ after.toList)) :
    Says l line (.ifOpen condition) := by
  cases condition with
  | none =>
    refine hf.commands (s := d.falsehood.toList) hl hline ?_ hu.1
    simp only [Form.decision, readTest_none, Option.map_some]
  | some condition =>
    rw [test, heval] at hline
    refine hf.commands hl hline ?_ (hu.2.1.append ((unbroken_doubleQuote condition).append hu.2.2))
    simp only [Form.decision, readTest_condition _ _ _ _ _ hne hn ho, Option.map_some]

end forms

/-- Python reads each line as the command it was written for. -/
theorem reads_python : Reads .python .python where
  head := rfl
  declare := ⟨rfl, by decide, by decide⟩
  comment text := by
    refine says_comment (r := ' ' :: (singleLine text).toList) ?_ (by decide) (by decide)
      (by decide) ?_
    · simp [Dialect.python, Language.python]
    · exact Unbroken.append (s := [' ']) (by decide) (unbroken_singleLine text)
  assign target := by
    -- Forms are tried in order, so that a line has to stand out from those in front of its own.
    have hf : Form.StandsOut .python (Language.python.forms.take 2)
        (.target "next_step = " "None" "" .assign) := by
      constructor <;> decide
    refine says_target (d := .python) hf rfl (by decide) (by decide) (by decide) target ?_
    simp [Dialect.python, nextVariable]
  ifOpen condition := by
    have hf : Form.StandsOut .python (Language.python.forms.take 3)
        (.decision "if " "False" "eval(" ", \x7b\x7d, context)" ":") := by
      constructor <;> decide
    refine says_decision (d := .python) hf rfl (fun c => ?_) (by decide) (by decide)
      (by decide) (by decide) condition ?_
    · simp [Dialect.python]
    · simp [Dialect.python]
  elseOpen := ⟨rfl, by decide, by decide⟩
  ifClose := rfl
  emit step := by
    have hf : Form.StandsOut .python (Language.python.forms.take 4)
        (.step "yield " ", next_step") := by
      constructor <;> decide
    refine says_step hf rfl step ?_
    simp [Dialect.python, nextVariable]
  finish _ _ _ := rfl
  finishEmpty holds output successor := ⟨⟨.returned, successor, output⟩, rfl, rfl, rfl⟩
  unbroken := by decide

/-- JavaScript reads each line as the command it was written for. -/
theorem reads_javascript : Reads .javascript .javascript where
  head := rfl
  declare := ⟨rfl, by decide, by decide⟩
  comment text := by
    refine says_comment (r := ' ' :: (singleLine text).toList) ?_ (by decide) (by decide)
      (by decide) ?_
    · simp [Dialect.javascript, Language.javascript]
    · exact Unbroken.append (s := [' ']) (by decide) (unbroken_singleLine text)
  assign target := by
    have hf : Form.StandsOut .javascript (Language.javascript.forms.take 3)
        (.target "next_step = " "null" ";" .assign) := by
      constructor <;> decide
    refine says_target (d := .javascript) hf rfl (by decide) (by decide) (by decide) target ?_
    simp [Dialect.javascript, nextVariable]
  ifOpen condition := by
    have hf : Form.StandsOut .javascript (Language.javascript.forms.take 4)
        (.decision "if (" "false" "evaluate(" ", context)" ") \x7b") := by
      constructor <;> decide
    refine says_decision (d := .javascript) hf rfl (fun c => ?_) (by decide) (by decide)
      (by decide) (by decide) condition ?_
    · simp [Dialect.javascript]
    · simp [Dialect.javascript]
  elseOpen := ⟨rfl, by decide, by decide⟩
  ifClose := ⟨_, rfl, rfl, by decide, by decide⟩
  emit step := by
    have hf : Form.StandsOut .javascript (Language.javascript.forms.take 5)
        (.step "yield [" ", next_step];") := by
      constructor <;> decide
    refine says_step hf rfl step ?_
    simp [Dialect.javascript, nextVariable]
  finish _ _ _ := rfl
  finishEmpty _ output successor := ⟨⟨.closed, successor, output⟩, rfl, rfl, rfl⟩
  unbroken := by decide

inductive Written (d : Dialect) : String → Prop
  | comment (text : String) : Written d (d.comment (singleLine text))
  | assign (target : Option String) : Written d (d.assign nextVariable (targetLiteral d target))
  | ifOpen (condition : Option String) : Written d (d.ifOpen (test d condition))
  | elseOpen : Written d d.elseOpen
  | ifClose {line : String} (h : d.ifClose = some line) : Written d line
  | emit (step : String) : Written d (d.yieldPair (quote step) nextVariable)

theorem exists_written_of_mem_choiceLines {d : Dialect} {t : Transition} {line : String}
    (h : line ∈ choiceLines d t) : ∃ n s, Written d s ∧ line = indented (n + 1) s := by
  unfold choiceLines at h
  split at h
  · unfold actorLines at h
    rcases List.mem_append.1 h with h | h
    · split at h
      · exact ⟨0, _, .comment _, List.mem_singleton.1 h⟩
      · cases h
    · exact ⟨0, _, .assign _, List.mem_singleton.1 h⟩
  · simp only [List.mem_append, List.mem_cons, List.not_mem_nil, or_false] at h
    rcases h with (rfl | rfl | rfl | rfl) | h
    · exact ⟨0, _, .ifOpen _, rfl⟩
    · exact ⟨1, _, .assign _, rfl⟩
    · exact ⟨0, _, .elseOpen, rfl⟩
    · exact ⟨1, _, .assign _, rfl⟩
    · obtain ⟨s, hs, rfl⟩ := Option.map_eq_some_iff.1 (Option.mem_toList.1 h)
      exact ⟨0, _, .ifClose hs, rfl⟩

/-- The lines of a step stand inside the function. -/
theorem exists_written_of_mem_stepLines {d : Dialect} {t : Transition} {line : String}
    (h : line ∈ stepLines d t) : ∃ n s, Written d s ∧ line = indented (n + 1) s := by
  simp only [stepLines, List.mem_cons, List.mem_append, List.not_mem_nil, or_false] at h
  rcases h with rfl | h | rfl
  · exact ⟨0, _, .comment _, rfl⟩
  · exact exists_written_of_mem_choiceLines h
  · exact ⟨0, _, .emit _, rfl⟩

section lines

variable {l : Language} {d : Dialect} (h : Reads l d)

include h

/-- Every line of a step is read as some command. -/
theorem Reads.says_written {line : String} (hw : Written d line) : ∃ c, Says l line c := by
  cases hw with
  | comment text => exact ⟨_, h.comment text⟩
  | assign target => exact ⟨_, h.assign target⟩
  | ifOpen condition => exact ⟨_, h.ifOpen condition⟩
  | elseOpen => exact ⟨_, h.elseOpen⟩
  | ifClose hline =>
    have hc := h.ifClose
    split at hc
    · simp [hc] at hline
    · obtain ⟨close, hclose, hcommand⟩ := hc
      rw [hline, Option.some.injEq] at hclose
      exact ⟨_, hclose ▸ hcommand⟩
  | emit step => exact ⟨_, h.emit step⟩

theorem unbroken_stepLines (t : Transition) : ∀ line ∈ stepLines d t, Unbroken line.toList := by
  intro line hline
  obtain ⟨n, s, hs, rfl⟩ := exists_written_of_mem_stepLines hline
  obtain ⟨c, hc⟩ := h.says_written hs
  exact hc.unbroken_indented (n + 1)

/-- No line of the generated text is broken by what a document says. -/
theorem unbroken_allLines (p : Process) : ∀ line ∈ allLines d p, Unbroken line.toList := by
  have hu := h.unbroken
  have hbody : ∀ line ∈ bodyLines d p.transitions ++ d.functionClose.toList,
      Unbroken line.toList := by
    intro line hline
    rcases List.mem_append.1 hline with hl | hl
    · -- Without steps the body is one line that is fixed.
      cases hp : p.transitions with
      | nil =>
        rw [hp] at hl
        exact hu line (by simp [hl])
      | cons t ts =>
        rw [hp, bodyLines] at hl
        · obtain ⟨u, -, hl⟩ := List.mem_flatMap.1 hl
          exact unbroken_stepLines h u line hl
        · simp
    · exact hu line (by simp only [List.mem_append, List.mem_cons, hl, or_true])
  intro line hline
  simp only [allLines, List.mem_append, List.mem_cons] at hline
  rcases hline with hl | rfl | rfl | hl
  · exact hu line (by simp only [List.mem_append, hl, true_or])
  · exact hu _ (by simp)
  · exact h.declare.unbroken_indented 1
  · exact hbody line (List.mem_append.2 hl)

end lines

/-- The text of generated code is cut into the lines that were written. -/
theorem codeLines_generate {l : Language} {d : Dialect} (h : Reads l d) (p : Process) :
    codeLines (p.generate d) = (allLines d p).map String.toList := by
  rw [codeLines, Process.generate, String.toList_ofList]
  refine Text.splitOnP_joinWith rfl (by simp [allLines]) ?_
  intro line hline
  obtain ⟨s, hs, rfl⟩ := List.mem_map.1 hline
  exact unbroken_allLines h p s hs

end Workflow.Generator
