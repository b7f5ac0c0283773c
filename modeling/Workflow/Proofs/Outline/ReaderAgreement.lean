import Workflow.Proofs.Outline.Reading
import Workflow.Proofs.Tree
import Workflow.Proofs.Outline.TidyText

namespace Workflow

namespace Outline

open Yaml

/-- The scanner reads a mark of documents in the first column. -/
theorem leads_marker {m : Line} {ls : List Line} {b₀ : Stack} {s₀ : Scan} (hmark : m.text = marker)
    (hindent : m.indent = 0) (front : At (m :: ls) b₀ s₀) (level : b₀.level = 0) :
    ∃ u, Scan.Leads s₀ u ∧ At ls (b₀.push [.documentStart]) u := by
  cases front with
  | @line l ls b₀ s₀ c front next shorter =>
    obtain ⟨-, hcolumn, -, t, e, tail, ending, hrest⟩ := front
    rw [hmark] at hrest
    rw [hindent] at hcolumn
    have hstop : c.atMarker = true :=
      Cursor.atMarker_iff.2 ⟨hcolumn, '-', t ++ e, Or.inl rfl, hrest, tail.atGap ending⟩
    have hskip : (c.skip 3).rest = [] ++ (t ++ e) := Cursor.skip_rest_of_append (s := marker) hrest
    refine ⟨(b₀.push [.documentStart]).scan (c.skip 3) none false, ?_,
      at_below (by simp) tail ending hskip⟩
    refine Scan.Leads.of_readToken next hrest ?_ ?_
    · -- All blocks are closed in front of a marker, and here none is open.
      have hclose (k : Nat) : b₀.close k = b₀ := Stack.close_of_le (level ▸ Nat.zero_le k)
      rw [hclose, Scan.readToken, Stack.scan_cursor, hstop]
      simp only [beq_self_eq_true, Bool.and_eq_true, beq_iff_eq, if_true, Scan.marker,
        Scan.leaveBlocks]
      rw [if_neg (by simp), Stack.closeBlocks_scan, hclose]
      rfl
    · rw [Stack.scan_cursor, Cursor.skip_rest, hrest]
      rw [hrest] at shorter
      exact Nat.lt_of_lt_of_le (by simp [marker]; omega) shorter

/-- The tokens of a text to whose end the run from its start leads. -/
theorem tokens?_of_leads {text : List Char} {u : Scan} {b : Stack}
    (hallowed : (text.all isAllowed) = true) (leads : Scan.Leads (Scan.start (unifyBreaks text)) u)
    (done : At [] b u) :
    tokens? text = some (b.close 0).tokens.reverse := by
  obtain ⟨n, hn, hrun⟩ := leads
  cases done with
  | @done b u c place allowed ended optional next =>
    have hstart : (Scan.start (unifyBreaks text)).cursor.rest = unifyBreaks text := rfl
    rw [hstart] at hn
    obtain ⟨fuel, hfuel⟩ : ∃ fuel, (unifyBreaks text).length + 2 = fuel + 1 + n :=
      ⟨(unifyBreaks text).length + 1 - n, by omega⟩
    rw [tokens?, if_pos hallowed]
    dsimp only
    rw [hfuel, hrun]
    exact Scan.run_of_end next ended optional

/-- The tokens of a tidy text denote the value that the outline has. -/
theorem exists_tokens_of_tidy {text : List Char} {v : Tree} {ls : List Line} {c : Nat}
    (tidy : Tidy text) (hls : significantLines text = .ok ls) (block : BlockLines c v ls) :
    ∃ front ts, tokens? text = some (front ++ ts) ∧ Denotes v ts ∧
      (front = [] ∨ front = [.documentStart]) := by
  obtain ⟨clear, marks, holds, hmarks⟩ := tidy.exists_holds hls
  have harrives : Arrives (marks ++ ls) 0 (reach true ⟨unifyBreaks text, 0, 0, 0⟩) :=
    holds.arrives 0
  have hstart : At (marks ++ ls) ⟨[], 0, []⟩ (Scan.start (unifyBreaks text)) :=
    At.of_arrives (b := ⟨[], 0, []⟩) 0 harrives (by simp)
  -- The run comes to the first significant line, over the mark of documents if there is one.
  have hfront : ∃ front u, Scan.Leads (Scan.start (unifyBreaks text)) u ∧ At ls ⟨front, 0, []⟩ u ∧
      (front = [] ∨ front = [.documentStart]) := by
    rcases hmarks with rfl | ⟨m, rfl, hmark, hindent⟩
    · exact ⟨[], _, Scan.Leads.refl _, hstart, Or.inl rfl⟩
    · obtain ⟨u, hleads, hat⟩ := leads_marker hmark hindent hstart rfl
      exact ⟨[.documentStart], u, hleads, hat, Or.inr rfl⟩
  obtain ⟨front, u, hleads, hat, hor⟩ := hfront
  rw [← List.append_nil ls] at hat
  obtain ⟨w, b, ts, hleads', hdone, hclose, hdenotes⟩ := block.leads clear hat
    (Stack.close_of_le (Nat.zero_le _)) (Nat.zero_le c) (by simp [EndsMapping])
  refine ⟨front, ts, ?_, hdenotes, hor⟩
  have htokens := tokens?_of_leads tidy.allowed (hleads.trans hleads') hdone
  rw [← Stack.close_close (Nat.zero_le c), hclose, Stack.close_of_le (Nat.le_refl 0)] at htokens
  rw [htokens]
  rcases hor with rfl | rfl <;> simp [Stack.push]

/-- On a tidy text the value that YAML gives is that of the outline, unless it lies too deep. -/
theorem readTree?_of_tidy {text : List Char} {v : Tree} {ls : List Line} {c : Nat}
    (tidy : Tidy text) (hls : significantLines text = .ok ls) (block : BlockLines c v ls) :
    readTree? text = if v.depth ≤ depthLimit then some v else none := by
  obtain ⟨front, ts, htokens, hdenotes, hfront⟩ := exists_tokens_of_tidy tidy hls block
  obtain ⟨n, hmeans, hdocument⟩ := Compose.document?_of_denotes hdenotes hfront
  rw [readTree?, Document.read?, htokens, Option.bind_some, hdocument, Option.bind_some,
    hmeans.toTree?]

end Outline

open Outline

/-- On a tidy text the full reader accepts what the minimal reader accepts, and builds the same
tree, unless collections lie in one another too deep for it. -/
theorem loadTree_yaml_of_tidy {text : String} {v : Tree} (h : loadTree .minimal text = .ok v)
    (tidy : Tidy text.toList) : loadTree .yaml text = .ok v ↔ v.depth ≤ Yaml.depthLimit := by
  simp only [loadTree] at h ⊢
  split at h
  · rename_i hhead
    obtain ⟨ls, c, hls, block⟩ := readTree_eq_ok h
    rw [if_pos hhead, readTree?_of_tidy tidy hls block]
    by_cases hdepth : v.depth ≤ Yaml.depthLimit
    · simp [hdepth]
    · simp [hdepth]
  · simp at h

/-- A mark of documents in front, a comment sign inside a quoted key, an entry behind a hyphen, and
tabs around a key and behind a value. -/
theorem loadTree_yaml_of_tidy_items :
    let text :=
      "--- # all\nsteps:\n- \"a # b\" : 'it''s'\n  next:\n   b\t: \tx:y \t\n-\n- [] # none"
    let v := Tree.mapping [(.string "steps", .sequence
      [.mapping [(.string "a # b", .string "it's"),
        (.string "next", .mapping [(.string "b", .string "x:y")])],
      .null, .sequence []])]
    loadTree .minimal text = .ok v ∧ Tidy text.toList ∧ loadTree .yaml text = .ok v := by
  intro text v
  have hread : loadTree .minimal text = .ok v := by decide +kernel
  have htidy : Tidy text.toList := by decide +kernel
  exact ⟨hread, htidy, (loadTree_yaml_of_tidy hread htidy).2 (by decide)⟩

/-- On other texts the readers may differ. A no-break space at the end of a key is white space to
one of them, and a part of the key to the other. -/
theorem not_loadTree_yaml_of_minimal :
    ¬∀ (text : String) (v : Tree), loadTree .minimal text = .ok v →
    loadTree .yaml text = .ok v := by
  intro h
  have hminimal : loadTree .minimal "root:\n  k\u00a0: v\n" =
      .ok (.mapping [(.string "root", .mapping [(.string "k", .string "v")])]) := by decide +kernel
  have hyaml := h _ _ hminimal
  exact absurd hyaml (by decide +kernel)

/-- Each of these texts is untidy in one way only, and the full reader refuses it. -/
example :
    ∀ text ∈ ["root:\n  \"k\"\u00a0: v\n", "root:\n  k: v\n---\nb: c\n", "root:\n ---\n  k: v\n",
      "root:\n  k: v\n  \"a\"#b: c\n", "root:\n  k: --- 'a: b'\n", "root:\n- a\n--- : v\n",
      "root:\n\t\n  k: v\n", "root:\n-\t\n  k: v\n", "root:\n- a # b\u2028c\n",
      "\ufeffroot:\n- a\n",
      "root:\n- a # \x01\n"],
    (loadTree .minimal text).isOk = true ∧ (loadTree .yaml text).isOk = false := by
  decide +kernel

end Workflow
