import Workflow.Proofs.Yaml.QuotedLine

namespace Workflow.Yaml

/-- The tokens read, the last one first, with the blocks that are open. -/
structure Stack where
  tokens : List Token
  /-- One more than the column of the innermost block. -/
  level : Nat
  outer : List Nat

namespace Stack

def push (b : Stack) (ts : List Token) : Stack :=
  { b with tokens := ts.reverse ++ b.tokens }

def openAt (b : Stack) (column : Nat) (t : Token) : Stack :=
  if b.level ≤ column then ⟨t :: b.tokens, column + 1, b.level :: b.outer⟩ else b

def closeTo (level : Nat) : (outer : List Nat) → (tokens : List Token) → (innermost : Nat) → Stack
  | [], ts, l => ⟨ts, l, []⟩
  | o :: os, ts, l => if l > level then closeTo level os (.blockEnd :: ts) o else ⟨ts, l, o :: os⟩

def close (b : Stack) (level : Nat) : Stack :=
  closeTo level b.outer b.tokens b.level

def scan (b : Stack) (c : Cursor) (place : Option KeyPlace) (allowed : Bool) : Scan :=
  { cursor := c, tokens := b.tokens, level := b.level, outerLevels := b.outer, place
    outerPlaces := [], keyAllowed := allowed }

/-- The place that is remembered where a token begins. -/
def placeAt (b : Stack) (c : Cursor) (allowed : Bool) : Option KeyPlace :=
  if allowed then some ⟨b.tokens.length, c.line, c.column, c.offset, b.level == c.column + 1⟩
  else none

variable {b : Stack} {k k' column : Nat}

@[simp]
theorem scan_cursor (b : Stack) (c : Cursor) (place : Option KeyPlace) (allowed : Bool) :
    (b.scan c place allowed).cursor = c := rfl

@[simp]
theorem push_level (b : Stack) (ts : List Token) : (b.push ts).level = b.level := rfl

@[simp]
theorem push_nil (b : Stack) : b.push [] = b := rfl

theorem push_push (b : Stack) (ts us : List Token) : (b.push ts).push us = b.push (ts ++ us) := by
  simp [push]

theorem openAt_of_lt {t : Token} (h : column < b.level) : b.openAt column t = b :=
  if_neg (Nat.not_le_of_lt h)

theorem push_openAt_of_lt {t : Token} {ts : List Token} (h : column < b.level) :
    (b.push ts).openAt column t = b.push ts :=
  openAt_of_lt h

theorem openAt_level {t : Token} (h : b.level ≤ column + 1) :
    (b.openAt column t).level = column + 1 := by
  rw [openAt]
  split
  · rfl
  · omega

theorem close_of_le (h : b.level ≤ k) : b.close k = b := by
  obtain ⟨ts, l, os⟩ := b
  cases os with
  | nil => rfl
  | cons o os =>
    have hl : ¬l > k := Nat.not_lt_of_le h
    simp [close, closeTo, hl]

/-- Closing blocks in two steps is closing them at once. -/
theorem closeTo_close (h : k' ≤ k) (os : List Nat) (ts : List Token) (l : Nat) :
    (closeTo k os ts l).close k' = closeTo k' os ts l := by
  induction os generalizing ts l with
  | nil => rfl
  | cons o os ih =>
    rw [closeTo]
    split
    · have hl : l > k' := by omega
      rw [ih, closeTo, if_pos hl]
    · rfl

/-- Closing to a level and then to a lower one closes to the lower one. -/
theorem close_close (h : k' ≤ k) : (b.close k).close k' = b.close k' :=
  closeTo_close h b.outer b.tokens b.level

/-- A block that was opened is closed again together with what was read in it. -/
theorem close_openAt {t : Token} {ts : List Token} (h : b.level ≤ column) :
    ((b.openAt column t).push ts).close column = b.push (t :: ts ++ [.blockEnd]) := by
  have hclosed := close_of_le (b := b.push (t :: ts ++ [.blockEnd])) (k := column) h
  rw [openAt, if_pos h]
  simp only [close, push, closeTo, Nat.lt_succ_self, if_true, List.cons_append, List.reverse_cons,
    List.reverse_append, List.reverse_nil, List.nil_append, List.append_assoc] at hclosed ⊢
  exact hclosed

theorem closeBlocksTo_scan (os : List Nat) (ts : List Token) (l : Nat) (c : Cursor)
    (place : Option KeyPlace) (allowed : Bool) :
    Scan.closeBlocksTo k os (scan ⟨ts, l, os⟩ c place allowed) =
      (closeTo k os ts l).scan c place allowed := by
  induction os generalizing ts l with
  | nil => rfl
  | cons o os ih =>
    rw [Scan.closeBlocksTo, closeTo]
    split
    · have hl : l > k := by assumption
      rw [if_pos hl]
      exact ih _ _
    · have hl : ¬l > k := by assumption
      rw [if_neg hl]

theorem closeBlocks_scan (c : Cursor) (place : Option KeyPlace) (allowed : Bool) :
    (b.scan c place allowed).closeBlocks k = (b.close k).scan c place allowed :=
  closeBlocksTo_scan b.outer b.tokens b.level c place allowed

theorem openBlock_scan {t : Token} (c : Cursor) (place : Option KeyPlace) (allowed : Bool)
    (ts : List Token) :
    ((b.push ts).scan c place allowed).openBlock column b.tokens.length t =
      ((b.openAt column t).push ts).scan c place allowed := by
  have hlater : (ts.reverse ++ b.tokens).length - b.tokens.length = ts.reverse.length := by simp
  rw [Scan.openBlock, openAt]
  show (if (!false && decide (b.level ≤ column)) = true then _ else _) = _
  by_cases h : b.level ≤ column
  · simp only [h, Bool.not_false, Bool.true_and, decide_true, if_true, Scan.emitAt, push, scan,
      hlater, List.take_left, List.drop_left]
  · simp only [h, Bool.not_false, Bool.true_and, decide_false, Bool.false_eq_true, if_false]

theorem emitAt_scan {t : Token} (c : Cursor) (place : Option KeyPlace) (allowed : Bool)
    (ts : List Token) :
    ((b.push ts).scan c place allowed).emitAt b.tokens.length t =
      (b.push (t :: ts)).scan c place allowed := by
  have hlater : (ts.reverse ++ b.tokens).length - b.tokens.length = ts.reverse.length := by simp
  simp only [Scan.emitAt, push, scan, hlater, List.take_left, List.drop_left, List.reverse_cons,
    List.append_assoc, List.singleton_append]

theorem savePlace_scan (c : Cursor) (allowed : Bool) :
    (b.scan c none allowed).savePlace = some (b.scan c (b.placeAt c allowed) allowed) := by
  cases allowed <;> rfl

/-- A key is found at its colon: what was read since the place is the key. -/
theorem colon_scan {place : KeyPlace} (hindex : place.index = b.tokens.length) (c : Cursor)
    (allowed : Bool) (ts : List Token) :
    ((b.push ts).scan c (some place) allowed).colon =
      some (((b.openAt place.column .blockMappingStart).push (.key :: ts ++ [.value])).scan
        (c.skip 1) none false) := by
  have hplace : ((b.push ts).scan c (some place) allowed).place = some place := rfl
  rw [Scan.colon, hplace]
  simp only [hindex, emitAt_scan, openBlock_scan]
  simp [scan, push, Scan.allowKey, Scan.emit, Scan.skip, Scan.moveTo]

theorem openBlockHere_scan {t : Token} (c : Cursor) (place : Option KeyPlace) (allowed : Bool) :
    (b.scan c place allowed).openBlockHere t = (b.openAt c.column t).scan c place allowed :=
  openBlock_scan c place allowed []

/-- A hyphen opens a sequence if none is open at its column. -/
theorem blockEntry_scan (c : Cursor) :
    (b.scan c none true).blockEntry =
      some (((b.openAt c.column .blockSequenceStart).push [.blockEntry]).scan (c.skip 1)
        none true) := by
  rw [Scan.blockEntry, openBlockHere_scan]
  rfl

theorem quoted_scan {single : Bool} {r : ScalarScan} (c : Cursor) (allowed : Bool)
    (h : scanQuoted single c = some r) :
    (b.scan c none allowed).quoted single =
      some ((b.push [.scalar false r.text]).scan r.next (b.placeAt c allowed) false) := by
  rw [Scan.quoted, savePlace_scan]
  show (scanQuoted single c >>= _) = _
  rw [h]
  rfl

theorem plain_scan {r : ScalarScan} (c : Cursor) (allowed : Bool)
    (h : scanPlain false b.level c = some r) :
    (b.scan c none allowed).plain =
      some ((b.push [.scalar true r.text]).scan r.next (b.placeAt c allowed) r.endsBroken) := by
  rw [Scan.plain, savePlace_scan]
  show (scanPlain false b.level c >>= _) = _
  rw [h]
  rfl

end Stack

namespace Scan

variable {s t u : Scan} {c : Cursor} {x : Char} {r : List Char}

theorem readToken_colon (hrest : s.cursor.rest = ':' :: r) (hgap : atGap r = true) :
    s.readToken ':' r = s.colon := by
  simp [readToken, Cursor.atMarker, hrest, hgap]

theorem readToken_hyphen (hrest : s.cursor.rest = '-' :: r) (hgap : atGap r = true) :
    s.readToken '-' r = s.blockEntry := by
  have hmarker : s.cursor.atMarker = false := by
    rw [Cursor.atMarker, hrest]
    cases r with
    | nil => simp
    | cons y r =>
      have hy : y ≠ '-' := by
        rintro rfl
        simp [atGap, isGap, isBlank, isBreak] at hgap
      simp [hy]
  simp [readToken, hmarker, hgap]

theorem readToken_quote {single : Bool} (hmarker : s.cursor.atMarker = false) :
    s.readToken (quoteOf single) r = s.quoted single := by
  cases single <;> simp [readToken, hmarker, quoteOf]

/-- A plain scalar begins with these characters: with no indicator, or with one that more of the
word follows. -/
def BeginsWord (x : Char) (r : List Char) : Prop :=
  isIndicator x = false ∨ (x = '-' ∨ x = '?' ∨ x = ':') ∧ atGap r = false

theorem BeginsWord.ne_hash (h : BeginsWord x r) : x ≠ '#' := by
  rintro rfl
  rcases h with h | ⟨h | h | h, -⟩
  · simp [isIndicator] at h
  all_goals exact absurd h (by decide)

theorem BeginsWord.append (h : BeginsWord x r) (y : List Char) : BeginsWord x (r ++ y) := by
  rcases h with h | ⟨hx, hgap⟩
  · exact Or.inl h
  · refine Or.inr ⟨hx, ?_⟩
    cases r with
    | nil => simp [atGap] at hgap
    | cons z r => exact hgap

/-- Where a word begins, a plain scalar is read. -/
theorem readToken_plain (hmarker : s.cursor.atMarker = false) (hflow : s.inFlow = false)
    (hx : BeginsWord x r) : s.readToken x r = s.plain := by
  have hblank (hgap : atGap r = false) : startsWith isBlank r = false := by
    cases r with
    | nil => simp [atGap] at hgap
    | cons y r =>
      simpa [atGap, isGap, startsWith] using And.left (by simpa [atGap, isGap] using hgap)
  rcases hx with hx | ⟨rfl | rfl | rfl, hgap⟩
  · have hbegins : beginsPlain s.inFlow x r = true := by simp [beginsPlain, hx]
    simp [isIndicator] at hx
    simp [readToken, hmarker, hbegins, hx]
  · simp [readToken, hmarker, hgap, beginsPlain, hblank hgap]
  · simp [readToken, hmarker, hgap, hflow, beginsPlain]
  · simp [readToken, hmarker, hgap, hflow, beginsPlain]

theorem cursor_closeBlocksTo (level : Nat) (outer : List Nat) (s : Scan) :
    (closeBlocksTo level outer s).cursor = s.cursor := by
  induction outer generalizing s with
  | nil => rfl
  | cons l ls ih =>
    rw [closeBlocksTo]
    split
    · exact ih _
    · rfl

/-- The run from a state goes on from another one, after no more steps than characters are
passed. -/
def Leads (s t : Scan) : Prop :=
  ∃ n, n + t.cursor.rest.length ≤ s.cursor.rest.length ∧ ∀ fuel, s.run (fuel + n) = t.run fuel

theorem Leads.refl (s : Scan) : Leads s s :=
  ⟨0, by omega, fun _ => rfl⟩

theorem Leads.trans (h : Leads s t) (h' : Leads t u) : Leads s u := by
  obtain ⟨n, hn, hrun⟩ := h
  obtain ⟨n', hn', hrun'⟩ := h'
  refine ⟨n' + n, by omega, fun fuel => ?_⟩
  rw [← Nat.add_assoc, hrun, hrun']

/-- One step of the run. -/
theorem Leads.of_step (hnext : s.toToken.expireAll = some u) (hrest : u.cursor.rest = x :: r)
    (hread : (u.closeBlocks (u.cursor.column + 1)).readToken x r = some t)
    (hlength : t.cursor.rest.length < s.cursor.rest.length) : Leads s t := by
  have hclose : (u.closeBlocks (u.cursor.column + 1)).cursor = u.cursor := by
    rw [closeBlocks]
    split
    · rfl
    · exact cursor_closeBlocksTo _ _ u
  refine ⟨1, by omega, fun fuel => ?_⟩
  rw [run, hnext]
  simp only [hclose, hrest, hread]

theorem Leads.of_readToken {b : Stack} {place : Option KeyPlace} {allowed : Bool}
    (hnext : s.toToken.expireAll = some (b.scan c place allowed)) (hrest : c.rest = x :: r)
    (hread : ((b.close (c.column + 1)).scan c place allowed).readToken x r = some t)
    (hlength : t.cursor.rest.length < s.cursor.rest.length) : Leads s t := by
  refine Leads.of_step hnext hrest ?_ hlength
  rw [Stack.scan_cursor, Stack.closeBlocks_scan, hread]

/-- At the end of the text all blocks are closed. -/
theorem run_of_end {b : Stack} {place : Option KeyPlace} {allowed : Bool} {fuel : Nat}
    (hnext : s.toToken.expireAll = some (b.scan c place allowed)) (hrest : c.rest = [])
    (hplace : ∀ p ∈ place, p.required = false) :
    s.run (fuel + 1) = some (b.close 0).tokens.reverse := by
  have hclose := Stack.closeBlocks_scan (b := b) (k := c.column + 1) c place allowed
  have hclose' := Stack.closeBlocks_scan (b := b.close (c.column + 1)) (k := 0) c place allowed
  rw [run, hnext]
  simp only [Stack.scan_cursor, hclose, hrest]
  rw [finish, hclose', Stack.close_close (Nat.zero_le _)]
  cases place with
  | none => rfl
  | some p =>
    have hp : p.required = false := hplace p rfl
    simp [dropPlace, Stack.scan, hp]

/-- The state before the next token. -/
theorem toToken_scan {b : Stack} (c : Cursor) (place : Option KeyPlace) (allowed : Bool) :
    (b.scan c place allowed).toToken.expireAll =
      (expire (reach allowed c).2 place).map fun place =>
        b.scan (reach allowed c).2 place (reach allowed c).1 := by
  show (expire (reach allowed c).2 place >>= fun place => _) = _
  cases expire (reach allowed c).2 place <;> rfl

end Scan

end Workflow.Yaml
