import Workflow.Proofs.Outline.Machine
/-!
The reader of blocks gets on, step by step. What is left to do is counted by the characters from the
position on, by what waits, and by the phase. Every step makes the count smaller, so that every call
comes to its value or to a fault. On the way the lines before the position and those behind the line
at it stay as they are.
-/

namespace Workflow.Outline

/-- A line written again: with its number, at a larger column, and with a proper end of its text. -/
structure Line.Shortened (l l' : Line) : Prop where
  number : l'.number = l.number
  column : l.indent < l'.indent
  text : l'.text <:+ l.text
  proper : l'.text ≠ l.text

theorem Line.Shortened.trans {l l' l'' : Line} (h : l.Shortened l') (h' : l'.Shortened l'') :
    l.Shortened l'' := by
  refine ⟨h'.number.trans h.number, Nat.lt_trans h.column h'.column, h'.text.trans h.text,
    fun heq => ?_⟩
  have hlength : l.text.length ≤ l'.text.length := heq ▸ h'.text.length_le
  exact h.proper (h.text.eq_of_length_le hlength)

/-- The hyphen at least is missing in what stands behind it. -/
theorem Line.length_itemText_lt {l : Line} (h : isItem l.text = true) :
    l.itemText.length < l.text.length := by
  obtain ⟨n, hbehind, -⟩ := l.text_eq_of_isItem h
  obtain ⟨behind, htext, -⟩ := exists_of_isItem h
  have hlength := congrArg List.length hbehind
  rw [List.length_drop, List.length_append] at hlength
  have hfilled : 0 < l.text.length := by rw [htext]; exact Nat.succ_pos _
  omega

theorem Line.unfold_shortened {l : Line} (h : isItem l.text = true) : l.Shortened l.unfold := by
  refine ⟨rfl, l.unfold_indent_lt h, (List.dropWhile_suffix _).trans (List.drop_suffix 1 l.text),
    fun heq => ?_⟩
  have hlength := l.length_itemText_lt h
  rw [show l.itemText = l.text from heq] at hlength
  exact Nat.lt_irrefl _ hlength

/-- The characters of lines, and one more for each line. -/
def extent : List Line → Nat
  | [] => 0
  | line :: rest => line.text.length + 1 + extent rest

namespace Machine

def measure (m : Machine) : Nat :=
  7 * extent (m.lines.drop m.position) + 4 * m.waiting.length + weight m.phase

/-- What one step does to the lines and the position. -/
inductive Moves (m m' : Machine) : Prop
  | stays (lines : m'.lines = m.lines) (position : m'.position = m.position)
  | takes (within : m.position < m.lines.length) (lines : m'.lines = m.lines)
      (position : m'.position = m.position + 1)
  | shortens {l l' : Line} (here : m.lines[m.position]? = some l) (shortened : l.Shortened l')
      (lines : m'.lines = m.lines.set m.position l') (position : m'.position = m.position)

structure Leads (m m' : Machine) : Prop where
  length : m'.lines.length = m.lines.length
  forward : m.position ≤ m'.position
  within : m'.position ≤ max m.position m.lines.length
  before : ∀ i < m.position, m'.lines[i]? = m.lines[i]?
  behind : ∀ i : Nat, m'.position < i → m'.lines[i]? = m.lines[i]?
  each : ∀ i : Nat, m'.lines[i]? = m.lines[i]? ∨
    ∃ l l' : Line, m.lines[i]? = some l ∧ m'.lines[i]? = some l' ∧ l.Shortened l'

section steps

variable {m m' : Machine}

theorem lt_of_peek {line : Line} (here : m.peek = some line) : m.position < m.lines.length :=
  (List.getElem?_eq_some_iff.1 here).1

theorem drop_of_peek {line : Line} (here : m.peek = some line) :
    m.lines.drop m.position = line :: m.lines.drop (m.position + 1) := by
  obtain ⟨hlt, hline⟩ := List.getElem?_eq_some_iff.1 here
  rw [List.drop_eq_getElem_cons hlt, hline]

theorem drop_set_of_peek {line : Line} (here : m.peek = some line) (line' : Line) :
    (m.lines.set m.position line').drop m.position = line' :: m.lines.drop (m.position + 1) := by
  rw [List.drop_set, if_neg (Nat.lt_irrefl _), Nat.sub_self, drop_of_peek here, List.set_cons_zero]

-- A line that is taken counts for seven at least, a character for seven. What waits anew counts for
-- four, and the new phase for two more than the old one at most, so that no step adds as much as it
-- takes away.
/-- Each step comes nearer to the end. -/
theorem Does.measure_lt (h : m.Does m') : m'.measure < m.measure := by
  cases h with
  | turns nearer => exact Nat.add_lt_add_left nearer _
  | @takes line w phase here last near =>
    rw [measure, measure, last, drop_of_peek here, extent]
    simp only [take, turnTo, List.length_cons]
    omega
  | @shortens line w here hyphen last =>
    have hless := line.length_itemText_lt hyphen
    rw [measure, measure, last, drop_set_of_peek here, drop_of_peek here, extent, extent]
    simp only [Line.unfold, List.length_cons, weight]
    omega
  | @resumes w waiting phase waits near =>
    rw [measure, measure, waits, List.length_cons]
    dsimp only
    omega

theorem Does.moves (h : m.Does m') : m.Moves m' := by
  cases h with
  | turns => exact .stays rfl rfl
  | takes here => exact .takes (lt_of_peek here) rfl rfl
  | shortens here hyphen => exact .shortens here (Line.unfold_shortened hyphen) rfl rfl
  | resumes => exact .stays rfl rfl

theorem step_moves (h : m.step = some m') : m.Moves m' := by
  obtain ⟨m₁, hstep, hcases⟩ := m.step_does
  obtain rfl : m₁ = m' := Option.some.inj (hstep.symm.trans h)
  rcases hcases with ⟨-, rfl⟩ | ⟨-, hdoes⟩
  · exact .stays rfl rfl
  · exact hdoes.moves

theorem Leads.of_lines_eq (lines : m'.lines = m.lines) (forward : m.position ≤ m'.position)
    (within : m'.position ≤ max m.position m.lines.length) : m.Leads m' where
  length := by rw [lines]
  forward := forward
  within := within
  before i _ := by rw [lines]
  behind i _ := by rw [lines]
  each i := .inl (by rw [lines])

theorem Leads.refl (m : Machine) : m.Leads m :=
  .of_lines_eq rfl (Nat.le_refl _) (Nat.le_max_left _ _)

theorem Moves.leads (h : m.Moves m') : m.Leads m' := by
  cases h with
  | stays lines position => exact .of_lines_eq lines (by omega) (by omega)
  | takes within lines position => exact .of_lines_eq lines (by omega) (by omega)
  | @shortens l l' here shortened lines position =>
    have hother {i : Nat} (hi : m.position ≠ i) : m'.lines[i]? = m.lines[i]? := by
      rw [lines, List.getElem?_set_ne hi]
    refine ⟨by rw [lines, List.length_set], by omega, by omega, fun i hi => hother (by omega),
      fun i hi => hother (by omega), fun i => ?_⟩
    by_cases hi : m.position = i
    · subst hi
      have hset : m'.lines[m.position]? = some l' := by
        rw [lines, List.getElem?_set_self (List.getElem?_eq_some_iff.1 here).1]
      exact .inr ⟨l, l', here, hset, shortened⟩
    · exact .inl (hother hi)

theorem Leads.trans {m'' : Machine} (h : m.Leads m') (h' : m'.Leads m'') : m.Leads m'' := by
  have hwithin := h.within
  have hwithin' := h'.within
  rw [h.length] at hwithin'
  refine ⟨h'.length.trans h.length, Nat.le_trans h.forward h'.forward, by omega, ?_, ?_, ?_⟩
  · intro i hi
    exact (h'.before i (Nat.lt_of_lt_of_le hi h.forward)).trans (h.before i hi)
  · intro i hi
    exact (h'.behind i hi).trans (h.behind i (Nat.lt_of_le_of_lt h'.forward hi))
  · intro i
    rcases h.each i with hsame | ⟨l, l', hl, hl', hshort⟩
    · rw [← hsame]
      exact h'.each i
    · rcases h'.each i with hsame' | ⟨k, k', hk, hk', hshort'⟩
      · exact .inr ⟨l, l', hl, hsame'.trans hl', hshort⟩
      · obtain rfl : l' = k := Option.some.inj (hl'.symm.trans hk)
        exact .inr ⟨l, k', hl, hk', hshort.trans hshort'⟩

/-- No run is out of range, and what every step does to the lines and the position, the run does. -/
theorem exists_run (n : Nat) (m : Machine) : ∃ m', m.run n = some m' ∧ m.Leads m' := by
  induction n generalizing m with
  | zero => exact ⟨m, rfl, .refl m⟩
  | succ n ih =>
    obtain ⟨m₁, hstep, -⟩ := m.step_does
    obtain ⟨m', hrun, hleads⟩ := ih m₁
    refine ⟨m', ?_, (step_moves hstep).leads.trans hleads⟩
    rw [run, hstep, Option.bind_some, hrun]

end steps

def onto (m : Machine) (base : List Waiting) : Machine :=
  { m with waiting := m.waiting ++ base }

section calls

variable {m : Machine}

theorem readKey_onto (indent : Nat) (read : List (Tree × Tree)) (line : Line)
    (base : List Waiting) :
    (m.onto base).readKey indent read line = (m.readKey indent read line).map fun m' =>
      m'.onto base := by
  cases hentry : readEntry line.text with
  | error problem =>
    rw [readKey_of_error hentry, readKey_of_error hentry]
    rfl
  | ok entry =>
    rw [readKey_of_ok hentry, readKey_of_ok hentry]
    rfl

theorem readItem_onto {line : Line} (here : m.peek = some line) (hyphen : isItem line.text = true)
    (indent : Nat) (read : List Tree) (base : List Waiting) :
    (m.onto base).readItem indent read line = (m.readItem indent read line).map fun m' =>
      m'.onto base := by
  by_cases bare : line.itemText = []
  · rw [readItem_of_bare hyphen bare, readItem_of_bare hyphen bare]
    rfl
  cases hcut : cutKey line.itemText with
  | none =>
    rw [readItem_of_plain hyphen bare hcut, readItem_of_plain hyphen bare hcut]
    rfl
  | some cut =>
    have colon : (cutKey line.itemText).isSome = true := by rw [hcut]; rfl
    rw [readItem_of_colon here hyphen colon, readItem_of_colon (m := m.onto base) here hyphen colon]
    rfl

/-- What waits below a call is not touched by it. -/
theorem enter_onto (call : BlockCall) (base : List Waiting) :
    (m.onto base).enter call = (m.enter call).map fun m' => m'.onto base := by
  have hpeek : (m.onto base).peek = m.peek := rfl
  -- A call never looks at what waits, so both sides go the same way.
  cases call with
  | block indent =>
    rw [enter, enter, hpeek]
    cases m.peek with
    | none => rfl
    | some line =>
      dsimp only
      split <;> rfl
  | mapping indent read =>
    rw [enter, enter, hpeek]
    cases m.peek with
    | none => rfl
    | some line =>
      dsimp only
      split
      · rfl
      split
      · rfl
      split
      · rfl
      · exact readKey_onto indent read line base
  | nested indent =>
    rw [enter, enter, hpeek]
    cases m.peek with
    | none => rfl
    | some line =>
      dsimp only
      split
      · rfl
      split <;> rfl
  | sequence indent read =>
    rw [enter, enter, hpeek]
    cases here : m.peek with
    | none => rfl
    | some line =>
      dsimp only
      split
      · rename_i hitem
        exact readItem_onto here hitem.2 indent read base
      · rfl

/-- Until it comes to its value, a call does not look at what waits for that. -/
theorem step_onto (h : ¬m.Halted) (base : List Waiting) :
    (m.onto base).step = m.step.map fun m' => m'.onto base := by
  have hsame : (m.onto base).phase = m.phase := rfl
  rw [step, step, hsame]
  rw [Halted] at h
  cases hphase : m.phase with
  | call call => exact enter_onto call base
  | failed fault => rfl
  | done value =>
    rw [hphase] at h
    obtain ⟨w, waiting, hwaiting⟩ := List.exists_cons_of_ne_nil h
    -- What waits first is the same on both sides.
    have honto : (m.onto base).waiting = w :: (waiting ++ base) := by
      rw [onto, hwaiting, List.cons_append]
    dsimp only [Option.map_some]
    rw [resume, resume, honto, hwaiting]
    cases w <;> rfl

/-- Every machine halts, after no more steps than are counted, and leaves what waits behind as it
is. -/
theorem exists_run_halted (m : Machine) (base : List Waiting) :
    ∃ n ≤ m.measure, ∃ m' : Machine, (m.onto base).run n = some (m'.onto base) ∧ m'.Halted := by
  -- The step leads to another machine with a smaller measure, so the induction is on that and not
  -- on the machine.
  induction hmeasure : m.measure using Nat.strong_induction_on generalizing m with
  | _ bound ih =>
    obtain ⟨m₁, hstep, ⟨hhalted, -⟩ | ⟨hgoing, hdoes⟩⟩ := m.step_does
    · exact ⟨0, Nat.zero_le _, m, rfl, hhalted⟩
    · have hless : m₁.measure < bound := hmeasure ▸ hdoes.measure_lt
      obtain ⟨n, hn, m', hrun, hhalted⟩ := ih m₁.measure hless m₁ rfl
      refine ⟨n + 1, by omega, m', ?_, hhalted⟩
      rw [run, step_onto hgoing, hstep, Option.map_some, Option.bind_some, hrun]

end calls

end Machine

end Workflow.Outline
