import Workflow.Proofs.Outline.Progress

namespace Workflow.Outline

namespace Machine

/-- The machine comes to a result, and hands it to what waits in `base`. -/
def Answers (m : Machine) (base : List Waiting) : Result Tree → Prop
  | .ok (value, rest) =>
    ∃ n lines position, m.run n = some ⟨lines, position, base, .done value⟩ ∧
      lines.drop position = rest
  | .error fault => ∃ n m', m.run n = some m' ∧ m'.phase = .failed fault

theorem run_add (a b : Nat) (m : Machine) : m.run (a + b) = (m.run a).bind (run b) := by
  induction a generalizing m with
  | zero => rw [Nat.zero_add, run, Option.bind_some]
  | succ a ih =>
    rw [Nat.add_right_comm, run, run, Option.bind_assoc]
    exact congrArg _ (funext ih)

section answers

variable {m m₁ : Machine} {base : List Waiting} {r : Result Tree}

theorem Answers.of_run {n : Nat} (hrun : m.run n = some m₁) (h : m₁.Answers base r) :
    m.Answers base r := by
  have hgoes (k : Nat) : m.run (n + k) = m₁.run k := by rw [run_add, hrun, Option.bind_some]
  match r, h with
  | .ok (value, rest), ⟨k, lines, position, hk, hrest⟩ =>
    exact ⟨n + k, lines, position, (hgoes k).trans hk, hrest⟩
  | .error fault, ⟨k, m', hk, hfault⟩ => exact ⟨n + k, m', (hgoes k).trans hk, hfault⟩

theorem Answers.of_step (hstep : m.step = some m₁) (h : m₁.Answers base r) : m.Answers base r :=
  h.of_run (n := 1) (by rw [run, hstep, Option.bind_some, run])

theorem Answers.done {lines rest : List Line} {position : Nat} {value : Tree}
    (hrest : lines.drop position = rest) :
    Answers ⟨lines, position, base, .done value⟩ base (.ok (value, rest)) :=
  ⟨0, lines, position, rfl, hrest⟩

theorem Answers.failed {fault : Fault} (h : m.phase = .failed fault) :
    m.Answers base (.error fault) :=
  ⟨0, m, rfl, h⟩

/-- What comes to a value for what waits first goes on from there. -/
theorem Answers.bind {w : Waiting} {r' : Result Tree} (h : m.Answers (w :: base) r)
    (hfault : ∀ fault, r = .error fault → r' = .error fault)
    (hvalue : ∀ value rest lines position, r = .ok (value, rest) → lines.drop position = rest →
      Answers ⟨lines, position, w :: base, .done value⟩ base r') : m.Answers base r' := by
  match r, h with
  | .ok (value, rest), ⟨n, lines, position, hrun, hrest⟩ =>
    exact .of_run hrun (hvalue value rest lines position rfl hrest)
  | .error fault, ⟨n, m', hrun, hphase⟩ =>
    rw [hfault fault rfl]
    exact ⟨n, m', hrun, hphase⟩

/-- The value of a key: the key is a fault if it was there before, or else the other entries are
read. -/
theorem Answers.of_entry {c position : Nat} {read : List (Tree × Tree)} {line : Line}
    {key value : Tree} {lines : List Line} {r : Result (List (Tree × Tree))}
    (h : Answers ⟨lines, position, base, .call (.mapping c (read ++ [(key, value)]))⟩ base
      (r.map (Prod.map Tree.mapping id))) :
    Answers ⟨lines, position, .entry c read line key :: base, .done value⟩ base
      ((if Tree.hasKey read key then .error (line.fault (.duplicateKey (keyText key))) else r).map
        (Prod.map Tree.mapping id)) := by
  by_cases hkey : Tree.hasKey read key = true
  · have hstep : step ⟨lines, position, .entry c read line key :: base, .done value⟩ =
        some ⟨lines, position, base, .failed (line.fault (.duplicateKey (keyText key)))⟩ := by
      simp only [step, resume, if_pos hkey]
    rw [if_pos hkey]
    exact .of_step hstep (.failed rfl)
  · have hstep : step ⟨lines, position, .entry c read line key :: base, .done value⟩ =
        some ⟨lines, position, base, .call (.mapping c (read ++ [(key, value)]))⟩ := by
      simp only [step, resume, if_neg hkey]
    rw [if_neg hkey]
    exact .of_step hstep h

/-- A scalar behind a key or a hyphen. -/
theorem answers_toScalar (base : List Waiting) {lines rest : List Line} {position : Nat}
    (hrest : lines.drop position = rest) (line : Line) (text : List Char) :
    Answers ⟨lines, position, base, toScalar line text⟩ base
      ((line.lift (scalar text)).map fun value => (value, rest)) := by
  rw [toScalar]
  cases scalar text with
  | ok value => exact .done hrest
  | error problem => exact .failed rfl

end answers

section

variable {lines : List Line} {position : Nat} {line : Line} {below : List Line}

theorem peek_of_drop (base : List Waiting) (phase : Phase)
    (h : lines.drop position = line :: below) :
    (⟨lines, position, base, phase⟩ : Machine).peek = some line := by
  rw [peek, ← List.head?_drop, h, List.head?_cons]

theorem peek_of_drop_nil (base : List Waiting) (phase : Phase) (h : lines.drop position = []) :
    (⟨lines, position, base, phase⟩ : Machine).peek = none := by
  rw [peek, ← List.head?_drop, h, List.head?_nil]

theorem drop_succ_of_drop (h : lines.drop position = line :: below) :
    lines.drop (position + 1) = below := by
  rw [← List.drop_drop, h]
  rfl

end

-- Each reader has fuel enough for its lines, and the induction is on that.
mutual

/-- The machine takes a mapping entry by entry, as the recursion does. -/
theorem mapping_answers {fuel c : Nat} {read : List (Tree × Tree)} {lines ls : List Line}
    {position : Nat} {base : List Waiting} (hls : lines.drop position = ls)
    (hf : 6 * ls.length + 1 ≤ fuel) :
    Answers ⟨lines, position, base, .call (.mapping c read)⟩ base
      ((mapping fuel c read ls).map (Prod.map Tree.mapping id)) := by
  match fuel, ls with
  | fuel + 1, [] =>
    have hstep : step ⟨lines, position, base, .call (.mapping c read)⟩ =
        some ⟨lines, position, base, .done (.mapping read)⟩ := by
      simp only [step, enter, peek_of_drop_nil _ _ hls]
      rfl
    have hread : mapping (fuel + 1) c read [] = .ok (read, []) := by rw [mapping]
    rw [hread]
    exact .of_step hstep (.done hls)
  | fuel + 1, line :: below =>
    have here := peek_of_drop base (.call (.mapping c read)) hls
    have hbelow := drop_succ_of_drop hls
    rw [List.length_cons] at hf
    by_cases hlt : line.indent < c
    · have hstep : step ⟨lines, position, base, .call (.mapping c read)⟩ =
          some ⟨lines, position, base, .done (.mapping read)⟩ := by
        simp only [step, enter, here, if_pos hlt]
        rfl
      simp only [mapping, if_pos hlt]
      exact .of_step hstep (.done hls)
    by_cases hgt : line.indent > c
    · have hstep : step ⟨lines, position, base, .call (.mapping c read)⟩ =
          some ⟨lines, position, base, .failed (line.fault .unexpectedIndentation)⟩ := by
        simp only [step, enter, here, if_neg hlt, if_pos hgt]
        rfl
      simp only [mapping, if_neg hlt, if_pos hgt]
      exact .of_step hstep (.failed rfl)
    by_cases hitem : isItem line.text = true
    · have hstep : step ⟨lines, position, base, .call (.mapping c read)⟩ =
          some ⟨lines, position, base, .failed (line.fault .itemForKey)⟩ := by
        simp only [step, enter, here, if_neg hlt, if_neg hgt, if_pos hitem]
        rfl
      simp only [mapping, if_neg hlt, if_neg hgt, if_pos hitem]
      exact .of_step hstep (.failed rfl)
    have henter : step ⟨lines, position, base, .call (.mapping c read)⟩ =
        readKey ⟨lines, position, base, .call (.mapping c read)⟩ c read line := by
      simp only [step, enter, here, if_neg hlt, if_neg hgt, if_neg hitem]
    simp only [mapping, if_neg hlt, if_neg hgt, if_neg hitem]
    cases hentry : readEntry line.text with
    | error problem => exact .of_step (henter.trans (readKey_of_error hentry)) (.failed rfl)
    | ok entry =>
      refine .of_step (henter.trans (readKey_of_ok hentry)) ?_
      have hvalue := value_answers c line entry.rest (.entry c read line entry.key :: base) hbelow
        (Nat.le_of_succ_le_succ hf)
      dsimp only [Line.lift]
      refine .bind hvalue (fun fault hread => by rw [hread]; rfl) fun v rest lines' position'
        hread hrest => ?_
      -- What is left for the other entries is no more than what the value had, so the fuel is
      -- enough for them.
      have hlength : rest.length ≤ below.length := (suffix_of_value (by omega) hread).length_le
      rw [hread]
      exact .of_entry (mapping_answers hrest (by omega))

/-- The value of a key, read with the machine behind the line of the key. -/
theorem value_answers {fuel : Nat} (c : Nat) (line : Line) (text : List Char) {lines ls : List Line}
    {position : Nat} (base : List Waiting) (hls : lines.drop position = ls)
    (hf : 6 * ls.length + 6 ≤ fuel) :
    Answers
      ⟨lines, position, base, if text.isEmpty then .call (.nested c) else toScalar line text⟩
      base (value fuel c line text ls) := by
  match fuel with
  | fuel + 1 =>
    rw [value]
    split
    · exact nested_answers hls (by omega)
    · have hscalar := answers_toScalar base hls line text
      cases hread : line.lift (scalar text) <;> rw [hread] at hscalar <;> exact hscalar

theorem nested_answers {fuel c : Nat} {lines ls : List Line} {position : Nat} {base : List Waiting}
    (hls : lines.drop position = ls) (hf : 6 * ls.length + 5 ≤ fuel) :
    Answers ⟨lines, position, base, .call (.nested c)⟩ base (nested fuel c ls) := by
  match fuel, ls with
  | fuel + 1, [] =>
    have hstep : step ⟨lines, position, base, .call (.nested c)⟩ =
        some ⟨lines, position, base, .done .null⟩ := by
      simp only [step, enter, peek_of_drop_nil _ _ hls]
      rfl
    have hread : nested (fuel + 1) c [] = .ok (.null, []) := by rw [nested]
    rw [hread]
    exact .of_step hstep (.done hls)
  | fuel + 1, line :: below =>
    have here := peek_of_drop base (.call (.nested c)) hls
    -- A deeper block, a sequence at the column of the key, or nothing: one step of the machine for
    -- each.
    by_cases hdeeper : line.indent > c
    · have hstep : step ⟨lines, position, base, .call (.nested c)⟩ =
          some ⟨lines, position, base, .call (.block line.indent)⟩ := by
        simp only [step, enter, here, if_pos hdeeper]
        rfl
      simp only [nested, if_pos hdeeper]
      exact .of_step hstep (block_answers hls (by omega))
    by_cases hlevel : line.indent = c ∧ isItem line.text = true
    · have hstep : step ⟨lines, position, base, .call (.nested c)⟩ =
          some ⟨lines, position, base, .call (.sequence c [])⟩ := by
        simp only [step, enter, here, if_neg hdeeper, if_pos hlevel]
        rfl
      rw [nested_of_level hlevel.1 hlevel.2]
      exact .of_step hstep (sequence_answers hls (by omega))
    · have hstep : step ⟨lines, position, base, .call (.nested c)⟩ =
          some ⟨lines, position, base, .done .null⟩ := by
        simp only [step, enter, here, if_neg hdeeper, if_neg hlevel]
        rfl
      simp only [nested, if_neg hdeeper, if_neg hlevel]
      exact .of_step hstep (.done hls)

theorem block_answers {fuel c : Nat} {lines ls : List Line} {position : Nat} {base : List Waiting}
    (hls : lines.drop position = ls) (hf : 6 * ls.length + 4 ≤ fuel) :
    Answers ⟨lines, position, base, .call (.block c)⟩ base (block fuel c ls) := by
  -- Without lines a block is an empty mapping; otherwise its first line tells which block it is.
  match fuel, ls with
  | fuel + 2, [] =>
    have hstep : step ⟨lines, position, base, .call (.block c)⟩ =
        some ⟨lines, position, base, .call (.mapping c [])⟩ := by
      simp only [step, enter, peek_of_drop_nil _ _ hls]
      rfl
    have hread : block (fuel + 2) c [] = (mapping (fuel + 1) c [] []).map
        (Prod.map Tree.mapping id) := by
      rw [block, mapping]
      rfl
    rw [hread]
    exact .of_step hstep (mapping_answers hls (by omega))
  | fuel + 1, line :: below =>
    have here := peek_of_drop base (.call (.block c)) hls
    cases hitem : isItem line.text with
    | true =>
      have hstep : step ⟨lines, position, base, .call (.block c)⟩ =
          some ⟨lines, position, base, .call (.sequence c [])⟩ := by
        simp only [step, enter, here, if_pos hitem]
        rfl
      rw [block_of_item hitem]
      exact .of_step hstep (sequence_answers hls (by omega))
    | false =>
      have hstep : step ⟨lines, position, base, .call (.block c)⟩ =
          some ⟨lines, position, base, .call (.mapping c [])⟩ := by
        simp only [step, enter, here, hitem]
        rfl
      rw [block_of_plain hitem]
      exact .of_step hstep (mapping_answers hls (by omega))

/-- The machine takes a sequence item by item, as the recursion does. -/
theorem sequence_answers {fuel c : Nat} {read : List Tree} {lines ls : List Line} {position : Nat}
    {base : List Waiting} (hls : lines.drop position = ls) (hf : 6 * ls.length + 3 ≤ fuel) :
    Answers ⟨lines, position, base, .call (.sequence c read)⟩ base
      ((sequence fuel c read ls).map (Prod.map Tree.sequence id)) := by
  match fuel, ls with
  | fuel + 1, [] =>
    have hstep : step ⟨lines, position, base, .call (.sequence c read)⟩ =
        some ⟨lines, position, base, .done (.sequence read)⟩ := by
      simp only [step, enter, peek_of_drop_nil _ _ hls]
      rfl
    have hread : sequence (fuel + 1) c read [] = .ok (read, []) := by rw [sequence]
    rw [hread]
    exact .of_step hstep (.done hls)
  | fuel + 1, line :: below =>
    have here := peek_of_drop base (.call (.sequence c read)) hls
    rw [List.length_cons] at hf
    by_cases hends : ¬(line.indent = c ∧ isItem line.text = true)
    · have hstep : step ⟨lines, position, base, .call (.sequence c read)⟩ =
          some ⟨lines, position, base, .done (.sequence read)⟩ := by
        simp only [step, enter, here, if_neg hends]
        rfl
      simp only [sequence, if_neg hends]
      exact .of_step hstep (.done hls)
    rw [not_not] at hends
    have henter : step ⟨lines, position, base, .call (.sequence c read)⟩ =
        readItem ⟨lines, position, base, .call (.sequence c read)⟩ c read line := by
      simp only [step, enter, here, if_pos hends]
    obtain ⟨m₁, hread, hitem⟩ := item_answers read base hls hends.2 (Nat.le_of_succ_le_succ hf)
    rw [hends.1] at hread
    refine .of_step (henter.trans hread) ?_
    simp only [sequence, if_pos hends]
    rw [hends.1] at hitem
    refine .bind hitem (fun fault hread => by rw [hread]; rfl) fun v rest lines' position'
      hread hrest => ?_
    -- As for the entries of a mapping, what is left needs no more fuel than the item had.
    have hlength : rest.length ≤ below.length := (suffix_of_item (by omega) hread).length_le
    rw [hread]
    exact .of_step rfl (sequence_answers hrest (by omega))

/-- An item, read with the machine at its line. -/
theorem item_answers {fuel : Nat} (read : List Tree) {lines : List Line} {line : Line}
    {below : List Line} {position : Nat} (base : List Waiting)
    (hls : lines.drop position = line :: below) (hyphen : isItem line.text = true)
    (hf : 6 * below.length + 8 ≤ fuel) :
    ∃ m₁, readItem ⟨lines, position, base, .call (.sequence line.indent read)⟩ line.indent read
      line = some m₁ ∧
      m₁.Answers (.item line.indent read :: base) (item fuel line below) := by
  match fuel with
  | fuel + 1 =>
    have here := peek_of_drop base (.call (.sequence line.indent read)) hls
    have hbelow := drop_succ_of_drop hls
    by_cases bare : line.itemText = []
    · refine ⟨_, readItem_of_bare hyphen bare, ?_⟩
      unfold item
      rw [if_pos (List.isEmpty_iff.2 bare), Machine.below]
      match below, hbelow with
      | [], hbelow =>
        have hpeek : (take ⟨lines, position, base, .call (.sequence line.indent read)⟩
            (.item line.indent read)).peek =
            none := peek_of_drop_nil _ _ hbelow
        rw [hpeek]
        exact .done hbelow
      | next :: rest, hbelow =>
        have hpeek : (take ⟨lines, position, base, .call (.sequence line.indent read)⟩
            (.item line.indent read)).peek =
            some next := peek_of_drop _ _ hbelow
        rw [hpeek]
        dsimp only
        split
        · exact block_answers hbelow (by omega)
        · exact .done hbelow
    cases hcut : cutKey line.itemText with
    | none =>
      refine ⟨_, readItem_of_plain hyphen bare hcut, ?_⟩
      have hscalar := answers_toScalar (.item line.indent read :: base) hbelow line line.itemText
      unfold item
      rw [if_neg (List.isEmpty_iff.not.2 bare), hcut]
      cases hread : line.lift (scalar line.itemText) <;> rw [hread] at hscalar <;> exact hscalar
    | some cut =>
      have colon : (cutKey line.itemText).isSome = true := by rw [hcut]; rfl
      refine ⟨_, readItem_of_colon here hyphen colon, ?_⟩
      rw [item_of_colon (List.isEmpty_eq_false_iff.2 bare) colon]
      -- The line written again stands in front of the same lines, and the item has fuel for one
      -- line more.
      refine mapping_answers ?_ ?_
      · exact (drop_set_of_peek here line.unfold).trans (congrArg _ hbelow)
      · rw [List.length_cons]
        omega

end

end Machine

end Workflow.Outline
