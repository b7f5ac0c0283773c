import Workflow.Proofs.Outline.MachineAgreement
import Workflow.Document

namespace Workflow.Outline

def resultOf (lines : List Line) : BlockCall → Result Tree
  | .block indent => block (fuelFor lines) indent lines
  | .mapping indent read =>
    (mapping (fuelFor lines) indent read lines).map (Prod.map Tree.mapping id)
  | .nested indent => nested (fuelFor lines) indent lines
  | .sequence indent read =>
    (sequence (fuelFor lines) indent read lines).map (Prod.map Tree.sequence id)

/-- The line is one that the call must take: it is at the column of a mapping, or an item at that of
a sequence. -/
def BlockCall.Expects (line : Line) : BlockCall → Prop
  | .mapping indent _ => line.indent = indent
  | .sequence indent _ => line.indent = indent ∧ isItem line.text = true
  | .block _ => False
  | .nested _ => False

namespace Machine

/-- The call before which `base` waited has come to its value, or to a fault. -/
def Returned (base : List Waiting) (m : Machine) : Prop :=
  match m.phase with
  | .call _ => False
  | .done _ => m.waiting = base
  | .failed _ => True

def outcome (m : Machine) : Option (Except Malformed Tree) :=
  match m.phase, m.waiting with
  | .failed fault, _ => some (.error (.line fault))
  | .done value, [] =>
    match m.peek with
    | none => some (.ok value)
    | some line => some (.error (.line (line.fault .unexpectedIndentation)))
  | _, _ => none

section calls

variable {m m' : Machine}

theorem call_answers (lines : List Line) (position : Nat) (base : List Waiting) (call : BlockCall) :
    Answers ⟨lines, position, base, .call call⟩ base (resultOf (lines.drop position) call) := by
  cases call with
  | block indent => exact block_answers rfl (Nat.add_le_add_left (by decide) _)
  | mapping indent read => exact mapping_answers rfl (Nat.add_le_add_left (by decide) _)
  | nested indent => exact nested_answers rfl (Nat.add_le_add_left (by decide) _)
  | sequence indent read => exact sequence_answers rfl (Nat.add_le_add_left (by decide) _)

/-- The steps of a call are no more than seven for each character that is left and for each line,
and three. -/
theorem call_returns (lines : List Line) (position : Nat) (base : List Waiting) (call : BlockCall) :
    ∃ n ≤ 7 * extent (lines.drop position) + 3,
      ∃ m', run n ⟨lines, position, base, .call call⟩ = some m' ∧ m'.Returned base := by
  obtain ⟨n, hn, m', hrun, hhalted⟩ := exists_run_halted ⟨lines, position, [], .call call⟩ base
  have hweight : weight (.call call) ≤ 3 := by cases call <;> simp
  refine ⟨n, ?_, m'.onto base, hrun, ?_⟩
  · exact Nat.le_trans hn (Nat.add_le_add_left hweight _)
  · rw [Halted] at hhalted
    rw [Returned, show (m'.onto base).phase = m'.phase from rfl]
    cases hphase : m'.phase with
    | call call =>
      rw [hphase] at hhalted
      exact hhalted
    | failed fault => exact trivial
    | done value =>
      rw [hphase] at hhalted
      dsimp only at hhalted ⊢
      rw [onto, hhalted, List.nil_append]

theorem run_of_halted (h : m.Halted) (n : Nat) : m.run n = some m := by
  obtain ⟨m₁, hstep, ⟨-, rfl⟩ | ⟨hgoing, -⟩⟩ := m.step_does
  · induction n with
    | zero => rfl
    | succ n ih => rw [run, hstep, Option.bind_some, ih]
  · exact absurd h hgoing

theorem halted_of_failed {fault : Fault} (h : m.phase = .failed fault) : m.Halted := by
  rw [Halted, h]
  exact trivial

/-- Behind a fault there is no value, and no step goes back behind a line that was taken. -/
theorem position_lt_of_done {m₁ : Machine} {position n : Nat} {value : Tree}
    (h : (∃ fault, m₁.phase = .failed fault) ∨ position < m₁.position) (hrun : m₁.run n = some m')
    (hdone : m'.phase = .done value) : position < m'.position := by
  rcases h with ⟨fault, hfailed⟩ | hlt
  · obtain rfl : m₁ = m' :=
      Option.some.inj ((run_of_halted (halted_of_failed hfailed) n).symm.trans hrun)
    rw [hdone] at hfailed
    exact nomatch hfailed
  · obtain ⟨m₂, hrun', hleads⟩ := exists_run n m₁
    obtain rfl : m₂ = m' := Option.some.inj (hrun'.symm.trans hrun)
    exact Nat.lt_of_lt_of_le hlt hleads.forward

/-- A mapping at the column of the line takes it, or fails. -/
theorem step_mapping {line : Line} {read : List (Tree × Tree)}
    (hphase : m.phase = .call (.mapping line.indent read)) (here : m.peek = some line) :
    ∃ m₁, m.step = some m₁ ∧ ((∃ fault, m₁.phase = .failed fault) ∨ m.position < m₁.position) := by
  by_cases hitem : isItem line.text = true
  · refine ⟨m.turnTo (.failed (line.fault .itemForKey)), ?_, .inl ⟨_, rfl⟩⟩
    simp [step, hphase, enter, here, hitem]
  have henter : m.step = m.readKey line.indent read line := by
    simp [step, hphase, enter, here, hitem]
  cases hentry : readEntry line.text with
  | error problem => exact ⟨_, henter.trans (readKey_of_error hentry), .inl ⟨_, rfl⟩⟩
  | ok entry => exact ⟨_, henter.trans (readKey_of_ok hentry), .inr (Nat.lt_succ_self _)⟩

/-- A sequence at the column of an item takes it, or goes over to a mapping at the column of the
line that it writes in the place of the item. -/
theorem step_sequence {line : Line} {read : List Tree}
    (hphase : m.phase = .call (.sequence line.indent read)) (here : m.peek = some line)
    (hyphen : isItem line.text = true) :
    ∃ m₁, m.step = some m₁ ∧ (m.position < m₁.position ∨
      m₁.position = m.position ∧ m₁.peek = some line.unfold ∧
      m₁.phase = .call (.mapping line.unfold.indent [])) := by
  have henter : m.step = m.readItem line.indent read line := by
    simp [step, hphase, enter, here, hyphen]
  by_cases bare : line.itemText = []
  · exact ⟨_, henter.trans (readItem_of_bare hyphen bare), .inl (Nat.lt_succ_self _)⟩
  cases hcut : cutKey line.itemText with
  | none => exact ⟨_, henter.trans (readItem_of_plain hyphen bare hcut), .inl (Nat.lt_succ_self _)⟩
  | some cut =>
    refine ⟨_, henter.trans (readItem_of_colon here hyphen (by rw [hcut]; rfl)),
      .inr ⟨rfl, ?_, rfl⟩⟩
    exact List.getElem?_set_self (lt_of_peek here)

theorem exists_step_of_call {call : BlockCall} {n : Nat} {value : Tree}
    (hphase : m.phase = .call call) (hrun : m.run n = some m') (hdone : m'.phase = .done value) :
    ∃ i m₁, m.step = some m₁ ∧ m₁.run i = some m' := by
  cases n with
  | zero =>
    obtain rfl : m = m' := Option.some.inj hrun
    rw [hphase] at hdone
    exact nomatch hdone
  | succ i =>
    rw [run] at hrun
    obtain ⟨m₁, hstep, hrest⟩ := Option.bind_eq_some_iff.1 hrun
    exact ⟨i, m₁, hstep, hrest⟩

/-- A call that must take the line at the position has taken it when it comes to a value. -/
theorem position_lt_of_expects {call : BlockCall} {line : Line} {n : Nat} {value : Tree}
    (hphase : m.phase = .call call) (here : m.peek = some line) (expects : call.Expects line)
    (hrun : m.run n = some m') (hdone : m'.phase = .done value) : m.position < m'.position := by
  obtain ⟨i, m₁, hstep, hrest⟩ := exists_step_of_call hphase hrun hdone
  cases call with
  | block indent => exact expects.elim
  | nested indent => exact expects.elim
  | mapping indent read =>
    obtain rfl : line.indent = indent := expects
    obtain ⟨k, hk, htaken⟩ := step_mapping hphase here
    obtain rfl : k = m₁ := Option.some.inj (hk.symm.trans hstep)
    exact position_lt_of_done htaken hrest hdone
  | sequence indent read =>
    obtain ⟨rfl, hyphen⟩ : line.indent = indent ∧ isItem line.text = true := expects
    obtain ⟨k, hk, hlt | ⟨hposition, hpeek, hmapping⟩⟩ := step_sequence hphase here hyphen
    · obtain rfl : k = m₁ := Option.some.inj (hk.symm.trans hstep)
      exact position_lt_of_done (.inr hlt) hrest hdone
    · -- The line was written again, and the mapping that begins on it must take it.
      obtain rfl : k = m₁ := Option.some.inj (hk.symm.trans hstep)
      obtain ⟨k', hk', htaken⟩ := step_mapping hmapping hpeek
      obtain ⟨j, m₂, hstep', hrest'⟩ := exists_step_of_call hmapping hrest hdone
      obtain rfl : k' = m₂ := Option.some.inj (hk'.symm.trans hstep')
      rw [hposition] at htaken
      exact position_lt_of_done htaken hrest' hdone

end calls

end Machine

/-- Reads a text, with every index checked and so many steps for its lines. The answer is missing if
these are too few. -/
def readTextAt (steps : Nat) (text : List Char) : Checked (Option (Except Malformed Tree)) := do
  let lines := Text.lines text
  if ← mappingHeadAt lines then
    match ← readLinesAt 1 lines with
    | .error fault => return some (.error (.line fault))
    | .ok [] => return some (.error .rootNotMapping)
    | .ok (first :: rest) =>
      let m ← Machine.run steps ⟨first :: rest, 0, [], .call (.mapping first.indent [])⟩
      return m.outcome
  else return some (.error .rootNotMapping)

section texts

open Machine

/-- What is read from some lines, the machine comes to, and stays at it. -/
theorem exists_outcome (first : Line) (rest : List Line) :
    ∃ bound, ∀ steps ≥ bound, ∃ m,
      run steps ⟨first :: rest, 0, [], .call (.mapping first.indent [])⟩ = some m ∧
      m.outcome = some ((readBlock (first :: rest)).mapError Malformed.line) := by
  have hanswers := call_answers (first :: rest) 0 [] (.mapping first.indent [])
  rw [List.drop_zero, resultOf] at hanswers
  rw [readBlock]
  -- A halted machine stays as it is, so the run to the halt decides all the longer ones.
  have hstays {n : Nat} {m : Machine}
      (hrun : run n ⟨first :: rest, 0, [], .call (.mapping first.indent [])⟩ = some m)
      (hhalted : m.Halted) {steps : Nat} (hsteps : steps ≥ n) :
      run steps ⟨first :: rest, 0, [], .call (.mapping first.indent [])⟩ = some m := by
    obtain ⟨k, rfl⟩ := Nat.exists_eq_add_of_le hsteps
    rw [run_add, hrun, Option.bind_some, run_of_halted hhalted]
  cases hread : mapping (fuelFor (first :: rest)) first.indent [] (first :: rest) with
  | error fault =>
    rw [hread] at hanswers
    obtain ⟨n, m, hrun, hfailed⟩ := hanswers
    refine ⟨n, fun steps hsteps => ⟨m, hstays hrun (halted_of_failed hfailed) hsteps, ?_⟩⟩
    rw [outcome, hfailed]
    rfl
  | ok result =>
    obtain ⟨entries, left⟩ := result
    rw [hread] at hanswers
    obtain ⟨n, lines, position, hrun, hleft⟩ := hanswers
    refine ⟨n, fun steps hsteps => ⟨_, hstays hrun rfl hsteps, ?_⟩⟩
    rw [outcome]
    dsimp only [Prod.map] at hleft ⊢
    cases left with
    | nil =>
      rw [peek_of_drop_nil _ _ hleft]
      rfl
    | cons line left =>
      rw [peek_of_drop _ _ hleft]
      rfl

/-- Only the lines of a text are read in steps. -/
theorem readTextAt_eq_run (steps : Nat) (text : List Char) :
    readTextAt steps text =
      if hasMappingHead text then
        match significantLines text with
        | .error fault => some (some (.error (.line fault)))
        | .ok [] => some (some (.error .rootNotMapping))
        | .ok (first :: rest) =>
          (run steps ⟨first :: rest, 0, [], .call (.mapping first.indent [])⟩).bind fun m =>
            some m.outcome
      else some (some (.error .rootNotMapping)) := by
  rw [readTextAt, mappingHeadAt_lines, readLinesAt_eq, significantLines]
  dsimp only [Option.bind_eq_bind, Option.bind_some]
  split
  · split <;> rfl
  · rfl

/-- A text is read in finitely many steps, and nothing is out of range however many are made. -/
theorem readTextAt_eq (text : String) :
    (∀ steps, readTextAt steps text.toList ≠ none) ∧
      ∃ bound, ∀ steps ≥ bound, readTextAt steps text.toList =
        some (some (loadTree .minimal text)) := by
  -- What does not depend on the lines is there with the first step.
  have hfixed (answer : Except Malformed Tree) (hload : loadTree .minimal text = answer)
      (h : ∀ {steps : Nat}, readTextAt steps text.toList = some (some answer)) :
      (∀ steps, readTextAt steps text.toList ≠ none) ∧
        ∃ bound, ∀ steps ≥ bound, readTextAt steps text.toList =
          some (some (loadTree .minimal text)) := by
    refine ⟨fun steps => ?_, 0, fun steps _ => ?_⟩
    · rw [h]
      exact Option.some_ne_none _
    · rw [h, hload]
  cases hhead : hasMappingHead text.toList with
  | false =>
    apply hfixed (.error .rootNotMapping)
    · simp [loadTree, hhead]
    · simp [readTextAt_eq_run, hhead]
  | true =>
    match hlines : significantLines text.toList with
    | .error fault =>
      apply hfixed (.error (.line fault))
      · simp [loadTree, hhead, readTree, hlines]
      · simp [readTextAt_eq_run, hhead, hlines]
    | .ok [] =>
      apply hfixed (.error .rootNotMapping)
      · simp [loadTree, hhead, readTree, hlines]
      · simp [readTextAt_eq_run, hhead, hlines]
    | .ok (first :: rest) =>
      have hload : loadTree .minimal text = (readBlock (first :: rest)).mapError
          Malformed.line := by
        simp only [loadTree, hhead, if_true, readTree, hlines]
        cases readBlock (first :: rest) <;> rfl
      have hrun {steps : Nat} : readTextAt steps text.toList =
          (run steps ⟨first :: rest, 0, [], .call (.mapping first.indent [])⟩).bind fun m =>
            some m.outcome := by
        simp only [readTextAt_eq_run, hhead, hlines, if_true]
      refine ⟨fun steps => ?_, ?_⟩
      · obtain ⟨m, hm, -⟩ :=
          exists_run steps ⟨first :: rest, 0, [], .call (.mapping first.indent [])⟩
        rw [hrun, hm, Option.bind_some]
        exact Option.some_ne_none _
      · obtain ⟨bound, hbound⟩ := exists_outcome first rest
        refine ⟨bound, fun steps hsteps => ?_⟩
        obtain ⟨m, hm, houtcome⟩ := hbound steps hsteps
        rw [hrun, hm, Option.bind_some, houtcome, hload]

/-- The reader of blocks gets on from every call, at any position of any lines.

However many steps it makes, no index is out of range. A step takes the line at the position, or
writes that line again at a larger column with a proper end of its text, or leaves the lines and the
position alone; so the position never goes back or beyond the end, and no line before it changes.
The call comes to its value or to a fault, within seven steps for each character and each line that
is left, and three. The value and the lines left behind it are those that are read by recursion. A
mapping at the column of its line and a sequence at the column of an item have no value before that
line is taken. So every text is read, with the value or the fault that it has. -/
theorem reader_progresses (lines : List Line) (position : Nat) (base : List Waiting)
    (call : BlockCall) :
    (∀ steps, ∃ m, run steps ⟨lines, position, base, .call call⟩ = some m ∧
      Leads ⟨lines, position, base, .call call⟩ m ∧ ∃ m', m.step = some m' ∧ m.Moves m') ∧
    (∃ steps ≤ 7 * extent (lines.drop position) + 3,
      ∃ m, run steps ⟨lines, position, base, .call call⟩ = some m ∧ m.Returned base) ∧
    Answers ⟨lines, position, base, .call call⟩ base (resultOf (lines.drop position) call) ∧
    (∀ line steps m value, lines[position]? = some line → call.Expects line →
      run steps ⟨lines, position, base, .call call⟩ = some m → m.phase = .done value →
      position < m.position) ∧
    ∀ text : String, (∀ steps, readTextAt steps text.toList ≠ none) ∧
      ∃ bound, ∀ steps ≥ bound, readTextAt steps text.toList =
        some (some (loadTree .minimal text)) := by
  refine ⟨fun steps => ?_, call_returns lines position base call,
    call_answers lines position base call, ?_, readTextAt_eq⟩
  · obtain ⟨m, hrun, hleads⟩ := exists_run steps ⟨lines, position, base, .call call⟩
    obtain ⟨m', hstep, -⟩ := m.step_does
    exact ⟨m, hrun, hleads, m', hstep, step_moves hstep⟩
  · intro line steps m value here expects hrun hdone
    exact position_lt_of_expects (m := ⟨lines, position, base, .call call⟩) rfl here
      expects hrun hdone

/-- The item of `- a: b` is written again as a line with a key, and that line is taken. -/
theorem reader_progresses_item :
    ∃ m value, run 6 ⟨[⟨1, 0, "- a: b".toList⟩], 0, [], .call (.sequence 0 [])⟩ = some m ∧
      m.phase = .done value ∧
      0 < m.position := by
  have hdone : ((run 6 ⟨[⟨1, 0, "- a: b".toList⟩], 0, [], .call (.sequence 0 [])⟩).map fun m =>
      m.phase matches .done _) = some true := by decide +kernel
  obtain ⟨m, hrun, hphase⟩ := Option.map_eq_some_iff.1 hdone
  cases hvalue : m.phase with
  | call call => simp [hvalue] at hphase
  | failed fault => simp [hvalue] at hphase
  | done value =>
    have htakes := (reader_progresses [⟨1, 0, "- a: b".toList⟩] 0 [] (.sequence 0 [])).2.2.2.1
    exact ⟨m, value, hrun, hvalue, htakes ⟨1, 0, "- a: b".toList⟩ 6 m value rfl ⟨rfl, rfl⟩
      hrun hvalue⟩

/-- What is left of `- - a: b` without its first hyphen is an item, which is no key. -/
example : ((run 2 ⟨[⟨1, 0, "- - a: b".toList⟩], 0, [], .call (.sequence 0 [])⟩).map fun m =>
    m.phase matches .failed ⟨1, .itemForKey⟩) = some true := by
  decide +kernel

end texts

end Workflow.Outline
