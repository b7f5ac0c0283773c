import Workflow.Outline.Key
import Mathlib.Data.List.Basic
/-!
Lines cut at offsets of octets. A line is scanned octet by octet, with a look at the octet before or
behind, and is cut where the scan ends; an offset outside the line or inside a character is out of
range. No scan ever gets there, and the cuts are those of `cutKey` and `stripComment`.
-/

namespace Workflow.Outline

abbrev Checked := Option

def octets (s : List Char) : List UInt8 :=
  s.flatMap String.utf8EncodeChar

def splitOctets : (offset : Nat) → List Char → Checked (List Char × List Char)
  | 0, s => some ([], s)
  | _ + 1, [] => none
  | offset + 1, c :: r =>
    if c.utf8Size ≤ offset + 1 then
      (splitOctets (offset + 1 - c.utf8Size) r).map fun (before, behind) => (c :: before, behind)
    else none

inductive Verdict
  | passes
  | opens
  | ends

/-- Scans octets from the offset `i` on, and answers the offset of the one that ends the scan, if
there is one. `quote` is the quote that is open. -/
def scanFrom (look : Nat → UInt8 → Checked Verdict) (quote : Option UInt8) (i : Nat) :
    List UInt8 → Checked (Option Nat)
  | [] => some none
  | b :: rest =>
    match quote with
    | some q => scanFrom look (if b = q then none else some q) (i + 1) rest
    | none =>
      match look i b with
      | none => none
      | some .ends => some (some i)
      | some .opens => scanFrom look (some b) (i + 1) rest
      | some .passes => scanFrom look none (i + 1) rest

def isQuoteOctet (b : UInt8) : Bool :=
  b == '"'.toUInt8 || b == '\''.toUInt8

/-- A colon ends the scan if it is the last octet or the next one is a space. A quote counts at the
start only. -/
def lookForColon (all : List UInt8) (i : Nat) (b : UInt8) : Checked Verdict :=
  if isQuoteOctet b && i == 0 then some .opens
  else if b = ':'.toUInt8 then
    if i + 1 = all.length then some .ends
    else all[i + 1]?.map fun next => if next = ' '.toUInt8 then .ends else .passes
  else some .passes

def colonOffset (text : List Char) : Checked (Option Nat) :=
  scanFrom (lookForColon (octets text)) none 0 (octets text)

/-- A number sign ends the scan at the start and behind a space. A quote counts there and behind a
colon or a hyphen. -/
def lookForComment (all : List UInt8) (i : Nat) (b : UInt8) : Checked Verdict :=
  if isQuoteOctet b then
    if i = 0 then some .opens
    else all[i - 1]?.map fun previous =>
      if previous = ' '.toUInt8 ∨ previous = ':'.toUInt8 ∨ previous = '-'.toUInt8 then .opens
      else .passes
  else if b = '#'.toUInt8 then
    if i = 0 then some .ends
    else all[i - 1]?.map fun previous => if previous = ' '.toUInt8 then .ends else .passes
  else some .passes

def commentOffset (line : List Char) : Checked (Option Nat) :=
  scanFrom (lookForComment (octets line)) none 0 (octets line)

section octets

theorem utf8EncodeChar_of_lt {a : Char} (ha : a.toNat < 128) :
    String.utf8EncodeChar a = [a.toUInt8] := by
  apply String.utf8EncodeChar_eq_singleton
  rw [Char.utf8Size_eq_one_iff, UInt32.le_iff_toNat_le]
  exact Nat.le_of_lt_succ ha

theorem utf8Size_of_lt {a : Char} (ha : a.toNat < 128) : a.utf8Size = 1 := by
  rw [← String.length_utf8EncodeChar, utf8EncodeChar_of_lt ha, List.length_singleton]

/-- The octets of a character beyond ASCII are those of no ASCII character. -/
theorem le_of_mem_utf8EncodeChar {c : Char} (hc : 128 ≤ c.toNat) {b : UInt8}
    (hb : b ∈ String.utf8EncodeChar c) : 128 ≤ b.toNat := by
  have hlarge : ¬c.val.toNat ≤ 127 := by
    change ¬c.toNat ≤ 127
    omega
  simp only [String.utf8EncodeChar, hlarge, if_false] at hb
  split_ifs at hb <;> simp only [List.mem_cons, List.not_mem_nil, or_false] at hb <;>
    rcases hb with rfl | rfl | rfl | rfl <;> simp only [UInt8.toNat_ofNat'] <;> omega

/-- An ASCII character is found in no octets but its own. -/
theorem mem_utf8EncodeChar_iff {a c : Char} (ha : a.toNat < 128) :
    a.toUInt8 ∈ String.utf8EncodeChar c ↔ c = a := by
  have htoNat {c : Char} (hc : c.toNat < 128) : c.toUInt8.toNat = c.toNat := by
    change (UInt8.ofNat c.toNat).toNat = c.toNat
    rw [UInt8.toNat_ofNat']
    omega
  constructor
  · intro hmem
    -- A character of ASCII is its own octet, and all octets of another one are larger.
    by_cases hc : c.toNat < 128
    · rw [utf8EncodeChar_of_lt hc, List.mem_singleton] at hmem
      have hcode := congrArg UInt8.toNat hmem
      rw [htoNat ha, htoNat hc] at hcode
      rw [← Char.ofNat_toNat c, ← hcode, Char.ofNat_toNat]
    · have hlarge := le_of_mem_utf8EncodeChar (Nat.le_of_not_lt hc) hmem
      rw [htoNat ha] at hlarge
      omega
  · rintro rfl
    rw [utf8EncodeChar_of_lt ha]
    exact List.mem_singleton_self _

@[simp]
theorem octets_nil : octets [] = [] := rfl

theorem octets_append (s t : List Char) : octets (s ++ t) = octets s ++ octets t :=
  List.flatMap_append

theorem octets_cons (c : Char) (r : List Char) :
    octets (c :: r) = String.utf8EncodeChar c ++ octets r :=
  List.flatMap_cons

theorem octets_eq_nil_iff {s : List Char} : octets s = [] ↔ s = [] := by
  cases s with
  | nil => simp
  | cons c r => simp [octets_cons]

end octets

/-- The offset behind some characters is in range, and it cuts the text behind them. -/
theorem splitOctets_length (before behind : List Char) :
    splitOctets (octets before).length (before ++ behind) = some (before, behind) := by
  induction before with
  | nil => simp [octets, splitOctets]
  | cons c r ih =>
    have hsize : 0 < c.utf8Size := c.utf8Size_pos
    obtain ⟨n, hn⟩ : ∃ n, c.utf8Size + (octets r).length = n + 1 :=
      ⟨_, (Nat.succ_pred (by omega)).symm⟩
    have hrest : n + 1 - c.utf8Size = (octets r).length := by omega
    rw [octets_cons, List.length_append, String.length_utf8EncodeChar, hn, List.cons_append,
      splitOctets, if_pos (by omega), hrest, ih]
    rfl

section scans

variable {look : Nat → UInt8 → Checked Verdict} {run rest : List UInt8} {i : Nat}

theorem scanFrom_passes (h : ∀ j, i ≤ j → ∀ b ∈ run, look j b = some .passes) :
    scanFrom look none i (run ++ rest) = scanFrom look none (i + run.length) rest := by
  induction run generalizing i with
  | nil => rfl
  | cons b run ih =>
    have hb : look i b = some .passes := h i (Nat.le_refl i) b List.mem_cons_self
    have hrun := ih fun j hj c hc => h j (Nat.le_of_succ_le hj) c (List.mem_cons_of_mem b hc)
    rw [List.cons_append, scanFrom, hb, List.length_cons,
      Nat.add_comm run.length 1, ← Nat.add_assoc]
    exact hrun

theorem scanFrom_opens {b : UInt8} (h : look i b = some .opens) :
    scanFrom look none i (b :: rest) = scanFrom look (some b) (i + 1) rest := by
  rw [scanFrom, h]

theorem scanFrom_quoted {q : UInt8} (h : q ∉ run) :
    scanFrom look (some q) i (run ++ rest) = scanFrom look (some q) (i + run.length) rest := by
  induction run generalizing i with
  | nil => rfl
  | cons b run ih =>
    rw [List.mem_cons, not_or] at h
    rw [List.cons_append, scanFrom, List.length_cons, Nat.add_comm run.length 1, ← Nat.add_assoc]
    simpa only [if_neg (Ne.symm h.1)] using ih h.2

theorem isQuote_lt {q : Char} (h : isQuote q = true) : q.toNat < 128 := by
  simp only [isQuote, Bool.or_eq_true, beq_iff_eq] at h
  rcases h with rfl | rfl <;> decide

/-- Inside quotes a scan stops at nothing but the closing quote. -/
theorem scanFrom_quoted_cons {q : Char} (hq : isQuote q = true) (c : Char) (r : List Char) :
    scanFrom look (some q.toUInt8) i (octets (c :: r)) =
      scanFrom look ((if c == q then none else some q).map Char.toUInt8) (i + c.utf8Size)
      (octets r) := by
  rw [octets_cons]
  by_cases hc : c = q
  · subst hc
    rw [utf8EncodeChar_of_lt (isQuote_lt hq), List.singleton_append, scanFrom,
      utf8Size_of_lt (isQuote_lt hq)]
    simp
  · have hnot : q.toUInt8 ∉ String.utf8EncodeChar c :=
      fun hmem => hc ((mem_utf8EncodeChar_iff (isQuote_lt hq)).1 hmem)
    rw [scanFrom_quoted hnot, String.length_utf8EncodeChar]
    simp [hc]

theorem isQuoteOctet_iff {b : UInt8} :
    isQuoteOctet b = true ↔ ∃ q, isQuote q = true ∧ b = q.toUInt8 := by
  simp [isQuoteOctet, isQuote]

theorem isQuoteOctet_of_mem {c : Char} (hc : isQuote c = false) {b : UInt8}
    (hb : b ∈ String.utf8EncodeChar c) :
    isQuoteOctet b = false := by
  rw [Bool.eq_false_iff, Ne, isQuoteOctet_iff]
  rintro ⟨q, hq, rfl⟩
  rw [(mem_utf8EncodeChar_iff (isQuote_lt hq)).1 hb, hq] at hc
  cases hc

/-- A character of ASCII is its own first octet, and no other character has that octet. -/
theorem head?_octets_eq_iff {a : Char} (ha : a.toNat < 128) {s : List Char} :
    (octets s).head? = some a.toUInt8 ↔ s.head? = some a := by
  cases s with
  | nil => simp [octets]
  | cons c r =>
    rw [octets_cons, List.head?_append_of_ne_nil _ String.utf8EncodeChar_ne_nil, List.head?_cons,
      Option.some.injEq]
    constructor
    · intro hhead
      exact (mem_utf8EncodeChar_iff ha).1 (List.mem_of_head? hhead)
    · rintro rfl
      rw [utf8EncodeChar_of_lt ha, List.head?_cons]

theorem getLast?_octets_eq_iff {a : Char} (ha : a.toNat < 128) {s : List Char} :
    (octets s).getLast? = some a.toUInt8 ↔ s.getLast? = some a := by
  rcases List.eq_nil_or_concat s with rfl | ⟨r, c, rfl⟩
  · simp [octets]
  · have hfilled : octets [c] ≠ [] := octets_eq_nil_iff.not.2 (List.cons_ne_nil c [])
    rw [List.concat_eq_append, octets_append, List.getLast?_append_of_ne_nil _ hfilled,
      List.getLast?_concat, octets_cons, Option.some.injEq, octets_nil, List.append_nil]
    constructor
    · intro hlast
      exact (mem_utf8EncodeChar_iff ha).1 (List.mem_of_getLast? hlast)
    · rintro rfl
      rw [utf8EncodeChar_of_lt ha, List.getLast?_singleton]

theorem length_octets_concat (before : List Char) (c : Char) :
    (octets (before ++ [c])).length = (octets before).length + c.utf8Size := by
  rw [octets_append, List.length_append, octets_cons, List.length_append,
    String.length_utf8EncodeChar]
  rfl

end scans

section colons

theorem cutAtColon_cons (c : Char) (r : List Char) :
    cutAtColon (c :: r) =
      if c = ':' ∧ (r = [] ∨ r.head? = some ' ') then some ([], r)
      else (cutAtColon r).map fun (key, rest) => (c :: key, rest) := by
  rw [cutAtColon]
  simp only [Bool.and_eq_true, Bool.or_eq_true, beq_iff_eq, List.isEmpty_iff]
  split
  · rfl
  · cases cutAtColon r <;> rfl

theorem cutAfterQuote_cons (q c : Char) (r : List Char) :
    cutAfterQuote q (c :: r) =
      (if c == q then cutAtColon r else cutAfterQuote q r).map fun (key, rest) =>
        (c :: key, rest) := by
  rw [cutAfterQuote]
  cases if c == q then cutAtColon r else cutAfterQuote q r <;> rfl

/-- What stands behind a colon is looked at only where there is something. -/
theorem lookForColon_colon (before r : List Char) :
    lookForColon (octets (before ++ ':' :: r)) (octets before).length ':'.toUInt8 =
      some (if r = [] ∨ r.head? = some ' ' then .ends else .passes) := by
  have hall : octets (before ++ ':' :: r) = octets before ++ ':'.toUInt8 :: octets r := by
    rw [octets_append, octets_cons, utf8EncodeChar_of_lt (by decide)]
    rfl
  have hquote : (isQuoteOctet ':'.toUInt8 && (octets before).length == 0) = false := by
    rw [show isQuoteOctet ':'.toUInt8 = false from by decide, Bool.false_and]
  rw [lookForColon, hquote, if_neg Bool.false_ne_true, if_pos rfl, hall, List.length_append,
    List.length_cons]
  cases r with
  | nil => simp [octets]
  | cons d r =>
    obtain ⟨next, others, hnext⟩ :=
      List.exists_cons_of_ne_nil (octets_eq_nil_iff.not.2 (List.cons_ne_nil d r))
    -- The next octet is that of a space only if the next character is a space.
    have hspace : next = ' '.toUInt8 ↔ d = ' ' := by
      have hhead := head?_octets_eq_iff (a := ' ') (by decide) (s := d :: r)
      rw [hnext] at hhead
      simpa using hhead
    rw [hnext, List.length_cons, if_neg (by omega), List.getElem?_append_right (by omega)]
    simp [hspace]

theorem lookForColon_passes {all : List UInt8} {c : Char} (hc : c ≠ ':') {i : Nat}
    (hquote : i = 0 → isQuote c = false) {j : Nat} (hj : i ≤ j) {b : UInt8}
    (hb : b ∈ String.utf8EncodeChar c) :
    lookForColon all j b = some .passes := by
  have hne : b ≠ ':'.toUInt8 := by
    rintro rfl
    exact hc ((mem_utf8EncodeChar_iff (by decide)).1 hb)
  have hopen : (isQuoteOctet b && j == 0) = false := by
    by_cases hzero : j = 0
    · rw [isQuoteOctet_of_mem (hquote (by omega)) hb, Bool.false_and]
    · simp [hzero]
  rw [lookForColon, hopen, if_neg hne]
  rfl

/-- Octet by octet the colon is found that the search through characters finds. -/
theorem scanFrom_cutAtColon (before s : List Char)
    (hstart : before = [] → ∀ c ∈ s.head?, isQuote c = false) :
    scanFrom (lookForColon (octets (before ++ s))) none (octets before).length (octets s) =
      some ((cutAtColon s).map fun cut => (octets (before ++ cut.1)).length) := by
  -- A character that does not end the scan goes over to those before the offset.
  induction s generalizing before with
  | nil => rfl
  | cons c r ih =>
    have hrest := ih (before ++ [c]) (by simp)
    rw [List.append_assoc, List.singleton_append, length_octets_concat] at hrest
    rw [cutAtColon_cons]
    by_cases hc : c = ':'
    · subst hc
      have hsize : ':'.utf8Size = 1 := by decide
      rw [hsize] at hrest
      rw [octets_cons, utf8EncodeChar_of_lt (by decide), List.singleton_append, scanFrom,
        lookForColon_colon]
      by_cases hend : r = [] ∨ r.head? = some ' '
      · simp [hend]
      · simp only [hend, and_false, if_false]
        rw [hrest, Option.map_map]
        simp [Function.comp_def]
    · have hquote : (octets before).length = 0 → isQuote c = false := by
        intro hzero
        exact hstart (octets_eq_nil_iff.1 (List.length_eq_zero_iff.1 hzero)) c rfl
      rw [octets_cons, scanFrom_passes fun j hj b hb => lookForColon_passes hc hquote hj hb,
        String.length_utf8EncodeChar, hrest, if_neg (by simp [hc]), Option.map_map]
      simp [Function.comp_def]

theorem scanFrom_cutAfterQuote {q : Char} (hq : isQuote q = true) (before s : List Char)
    (hbefore : before ≠ []) :
    scanFrom (lookForColon (octets (before ++ s))) (some q.toUInt8)
      (octets before).length (octets s) =
      some ((cutAfterQuote q s).map fun cut => (octets (before ++ cut.1)).length) := by
  induction s generalizing before with
  | nil => rfl
  | cons c r ih =>
    rw [scanFrom_quoted_cons hq, ← length_octets_concat, List.append_cons, cutAfterQuote_cons,
      Option.map_map]
    by_cases hc : c = q
    · simpa [hc, Function.comp_def] using scanFrom_cutAtColon (before ++ [c]) r (by simp)
    · simpa [hc, Function.comp_def] using ih (before ++ [c]) (by simp)

/-- The scan for a colon stays in range, and ends where `cutKey` cuts. -/
theorem colonOffset_eq (text : List Char) :
    colonOffset text = some ((cutKey text).map fun cut => (octets cut.1).length) := by
  cases text with
  | nil => rfl
  | cons c r =>
    -- A quote in front is passed with what it encloses before a colon is looked for. It is one
    -- octet.
    cases hc : isQuote c with
    | true =>
      have hcode : String.utf8EncodeChar c = [c.toUInt8] := utf8EncodeChar_of_lt (isQuote_lt hc)
      have hopen : lookForColon (octets (c :: r)) 0 c.toUInt8 = some .opens := by
        rw [lookForColon, isQuoteOctet_iff.2 ⟨c, hc, rfl⟩]
        rfl
      have hscan := scanFrom_cutAfterQuote hc [c] r (List.cons_ne_nil c [])
      have hkey : cutKey (c :: r) = (cutAfterQuote c r).map fun (key, rest) =>
          (c :: key, rest) := by
        rw [cutKey, if_pos hc]
        cases cutAfterQuote c r <;> rfl
      calc
        colonOffset (c :: r)
            = scanFrom (lookForColon (octets (c :: r))) none 0 (c.toUInt8 :: octets r) := by
              rw [colonOffset, octets_cons, hcode, List.singleton_append]
        _ = scanFrom (lookForColon (octets (c :: r))) (some c.toUInt8) 1 (octets r) :=
          scanFrom_opens hopen
        _ = some ((cutAfterQuote c r).map fun cut => (octets (c :: cut.1)).length) := by
              simpa [octets_cons, hcode] using hscan
        _ = some ((cutKey (c :: r)).map fun cut => (octets cut.1).length) := by
              rw [hkey, Option.map_map]
              rfl
    | false =>
      have hscan := scanFrom_cutAtColon [] (c :: r) (by simpa using hc)
      simpa [colonOffset, cutKey, hc] using hscan

end colons

section comments

variable {before s : List Char}

/-- The answer of a scan for a comment that keeps `kept` of the characters `s` behind `before`. -/
inductive Keeps (before s : List Char) : (kept : List Char) → Option Nat → Prop
  | all : Keeps before s s none
  | cut {kept rest : List Char} (split : s = kept ++ rest) :
      Keeps before s kept (some (octets (before ++ kept)).length)

theorem Keeps.cons {c : Char} {kept : List Char} {found : Option Nat}
    (h : Keeps (before ++ [c]) s kept found) :
    Keeps before (c :: s) (c :: kept) found := by
  cases h with
  | all => exact .all
  | @cut kept rest split =>
    rw [← List.append_cons]
    exact .cut (by rw [split, List.cons_append])

/-- Behind some characters there is an octet to look back at. It is the one of an ASCII character
exactly if that character is the last of them. -/
theorem previous_octet (hbefore : before ≠ []) (rest : List UInt8) :
    (octets before).length ≠ 0 ∧ ∃ b c, (octets before ++ rest)[(octets before).length - 1]? =
      some b ∧
      before.getLast? = some c ∧ ∀ {a : Char}, a.toNat < 128 → (b = a.toUInt8 ↔ c = a) := by
  have hfilled : octets before ≠ [] := octets_eq_nil_iff.not.2 hbefore
  have hpos := List.length_pos_iff.2 hfilled
  obtain ⟨b, hb⟩ := Option.ne_none_iff_exists'.1 (List.getLast?_eq_none_iff.not.2 hfilled)
  obtain ⟨c, hc⟩ := Option.ne_none_iff_exists'.1 (List.getLast?_eq_none_iff.not.2 hbefore)
  refine ⟨by omega, b, c, ?_, hc, fun {a} ha => ?_⟩
  · rw [List.getElem?_append_left (by omega), ← List.getLast?_eq_getElem?, hb]
  · have hlast := getLast?_octets_eq_iff ha (s := before)
    rwa [hb, hc, Option.some.injEq, Option.some.injEq] at hlast

theorem lookForComment_quote {q : Char} (hq : isQuote q = true) (before r : List Char) :
    lookForComment (octets (before ++ q :: r)) (octets before).length q.toUInt8 =
      some (if opensQuote before.getLast? then .opens else .passes) := by
  rw [lookForComment, if_pos (isQuoteOctet_iff.2 ⟨q, hq, rfl⟩)]
  by_cases hbefore : before = []
  · subst hbefore
    rfl
  · obtain ⟨hpos, b, c, hb, hc, hsame⟩ := previous_octet hbefore (octets (q :: r))
    rw [if_neg hpos, octets_append, hb, hc]
    simp [opensQuote, hsame, or_assoc]

theorem lookForComment_sign (before r : List Char) :
    lookForComment (octets (before ++ '#' :: r)) (octets before).length '#'.toUInt8 =
      some (if opensComment before.getLast? then .ends else .passes) := by
  rw [lookForComment, if_neg (by decide), if_pos rfl]
  by_cases hbefore : before = []
  · subst hbefore
    rfl
  · obtain ⟨hpos, b, c, hb, hc, hsame⟩ := previous_octet hbefore (octets ('#' :: r))
    rw [if_neg hpos, octets_append, hb, hc]
    simp [opensComment, hsame]

theorem lookForComment_passes (all : List UInt8) {c : Char} (hc : c ≠ '#')
    (hquote : isQuote c = false) (j : Nat) {b : UInt8} (hb : b ∈ String.utf8EncodeChar c) :
    lookForComment all j b = some .passes := by
  have hne : b ≠ '#'.toUInt8 := by
    rintro rfl
    exact hc ((mem_utf8EncodeChar_iff (by decide)).1 hb)
  rw [lookForComment, isQuoteOctet_of_mem hquote hb, if_neg Bool.false_ne_true, if_neg hne]

/-- One character under the scan for a comment. -/
theorem scanFrom_lookForComment_cons (before : List Char) (c : Char) (r : List Char) :
    scanFrom (lookForComment (octets (before ++ c :: r))) none (octets before).length
    (octets (c :: r)) =
      if isQuote c then
        scanFrom (lookForComment (octets (before ++ c :: r)))
          ((if opensQuote before.getLast? then some c else none).map Char.toUInt8)
          (octets (before ++ [c])).length (octets r)
      else if c = '#' ∧ opensComment before.getLast? then some (some (octets before).length)
      else scanFrom (lookForComment (octets (before ++ c :: r))) none
      (octets (before ++ [c])).length (octets r) := by
  rw [length_octets_concat, octets_cons]
  -- A quote and a number sign are one octet each; any other character is passed with all of its
  -- octets.
  by_cases hquote : isQuote c = true
  · rw [if_pos hquote, utf8EncodeChar_of_lt (isQuote_lt hquote), utf8Size_of_lt (isQuote_lt hquote),
      List.singleton_append, scanFrom, lookForComment_quote hquote]
    cases opensQuote before.getLast? <;> rfl
  by_cases hsign : c = '#'
  · subst hsign
    rw [if_neg hquote, utf8EncodeChar_of_lt (by decide), utf8Size_of_lt (by decide),
      List.singleton_append, scanFrom, lookForComment_sign]
    cases opensComment before.getLast? <;> rfl
  · rw [if_neg hquote, if_neg (fun h => hsign h.1), scanFrom_passes fun j _ b hb => ?_,
      String.length_utf8EncodeChar]
    exact lookForComment_passes _ hsign (by simpa using hquote) j hb

theorem cutComment_cons (previous : Option Char) (c : Char) (r : List Char) :
    cutComment none previous (c :: r) =
      if isQuote c then c :: cutComment (if opensQuote previous then some c else none) (some c) r
      else if c = '#' ∧ opensComment previous then []
      else c :: cutComment none (some c) r := by
  simp [cutComment]

/-- The scan for a comment stays in range, and what is before its end is what `cutComment` keeps. -/
theorem scanFrom_cutComment (before s : List Char) (quote : Option Char)
    (hquote : ∀ q ∈ quote, isQuote q = true) :
    ∃ found, scanFrom (lookForComment (octets (before ++ s))) (quote.map Char.toUInt8)
      (octets before).length
        (octets s) = some found ∧ Keeps before s (cutComment quote before.getLast? s) found := by
  induction s generalizing before quote with
  | nil => exact ⟨none, rfl, .all⟩
  | cons c r ih =>
    -- What is kept of the characters behind `c` is looked for with `c` before them.
    have hbehind (quote : Option Char) (hquote : ∀ q ∈ quote, isQuote q = true) :
        ∃ found, scanFrom (lookForComment (octets (before ++ c :: r))) (quote.map Char.toUInt8)
            (octets (before ++ [c])).length (octets r) = some found ∧
          Keeps before (c :: r) (c :: cutComment quote (some c) r) found := by
      obtain ⟨found, hscan, hkeeps⟩ := ih (before ++ [c]) quote hquote
      rw [List.append_assoc, List.singleton_append] at hscan
      rw [List.getLast?_concat] at hkeeps
      exact ⟨found, hscan, hkeeps.cons⟩
    cases quote with
    | some q =>
      rw [Option.map_some, scanFrom_quoted_cons (hquote q rfl), ← length_octets_concat]
      refine hbehind _ ?_
      split
      · exact fun _ h => nomatch h
      · exact hquote
    | none =>
      rw [Option.map_none, scanFrom_lookForComment_cons, cutComment_cons]
      split
      · rename_i hmark
        refine hbehind _ ?_
        split
        · simpa using hmark
        · exact fun _ h => nomatch h
      split
      · have hkeeps : Keeps before (c :: r) [] (some (octets (before ++ [])).length) := .cut rfl
        rw [List.append_nil] at hkeeps
        exact ⟨_, rfl, hkeeps⟩
      · exact hbehind none hquote

end comments

end Workflow.Outline
