import Workflow.Proofs.Yaml.QuotedLine
import Workflow.Yaml.Content
/-!
Tokens are never taken back. A token that is put among earlier ones opens a block or marks a key, so
of a text whose first token is a scalar no more can be read than this scalar, or else a collection.
-/

namespace Workflow.Yaml

def opensBlock (t : Token) : Prop :=
  t = .key ∨ t = .blockMappingStart ∨ t = .blockSequenceStart

/-- From the tokens `ts` come the tokens `us`, the last one first in both, by appending tokens and
by putting openings of blocks among them. -/
inductive Grows (ts : List Token) : List Token → Prop
  | refl : Grows ts ts
  | emit {us : List Token} (t : Token) (grows : Grows ts us) : Grows ts (t :: us)
  | insert {us vs : List Token} {t : Token} (opens : opensBlock t) (grows : Grows ts (us ++ vs)) :
      Grows ts (us ++ t :: vs)

namespace Grows

variable {ts us vs : List Token}

theorem trans (h : Grows ts us) (h' : Grows us vs) : Grows ts vs := by
  induction h' with
  | refl => exact h
  | emit t _ ih => exact .emit t ih
  | insert opens _ ih => exact .insert opens ih

/-- Behind the first token nothing vanishes. -/
theorem mem_dropLast (h : Grows ts us) {t : Token} (ht : t ∈ ts.dropLast) : t ∈ us.dropLast := by
  induction h with
  | refl => exact ht
  | @emit us u _ ih =>
    cases us with
    | nil => simp at ih
    | cons v us => exact List.mem_cons_of_mem _ ih
  | @insert us vs u _ _ ih =>
    cases vs with
    | nil =>
      rw [List.append_nil] at ih
      simpa using (List.dropLast_sublist us).subset ih
    | cons v vs =>
      rw [List.dropLast_append_of_ne_nil (by simp)] at ih ⊢
      rcases List.mem_append.1 ih with h | h
      · exact List.mem_append_left _ h
      · exact List.mem_append_right _ (by simpa using Or.inr h)

/-- The first token stays, unless one is put before it. -/
theorem getLast? (h : Grows ts us) {t : Token} (ht : ts.getLast? = some t) :
    ∃ u, us.getLast? = some u ∧ (u = t ∨ opensBlock u) := by
  induction h with
  | refl => exact ⟨t, ht, Or.inl rfl⟩
  | @emit us u _ ih =>
    obtain ⟨v, hv, hor⟩ := ih
    refine ⟨v, ?_, hor⟩
    cases us with
    | nil => simp at hv
    | cons w us => simpa using hv
  | @insert us vs u opens _ ih =>
    obtain ⟨v, hv, hor⟩ := ih
    cases vs with
    | nil => exact ⟨u, by simp, Or.inr opens⟩
    | cons w vs =>
      refine ⟨v, ?_, hor⟩
      rw [List.getLast?_append_of_ne_nil _ (by simp)] at hv ⊢
      simpa using hv

end Grows

namespace Scan

/-- The state `s'` has the tokens of `s` and some more, the latest of which is `t`. -/
def Adds (s s' : Scan) (t : Token) : Prop :=
  ∃ ts, s'.tokens = t :: ts ∧ Grows s.tokens ts

theorem Adds.of_grows {s s' s'' : Scan} {t : Token} (h : Grows s.tokens s'.tokens)
    (h' : Adds s' s'' t) : Adds s s'' t := by
  obtain ⟨ts, hts, hgrows⟩ := h'
  exact ⟨ts, hts, h.trans hgrows⟩

theorem Adds.grows {s s' : Scan} {t : Token} (h : Adds s s' t) : Grows s.tokens s'.tokens := by
  obtain ⟨ts, hts, hgrows⟩ := h
  exact hts ▸ .emit t hgrows

theorem grows_emitAt (s : Scan) (index : Nat) {t : Token} (h : opensBlock t) :
    Grows s.tokens (s.emitAt index t).tokens := by
  refine .insert h ?_
  rw [List.take_append_drop]
  exact .refl

theorem grows_openBlock (s : Scan) (column index : Nat) {t : Token} (h : opensBlock t) :
    Grows s.tokens (s.openBlock column index t).tokens := by
  rw [openBlock]
  split
  · exact grows_emitAt s index h
  · exact .refl

theorem grows_closeBlocksTo (level : Nat) (outer : List Nat) (s : Scan) :
    Grows s.tokens (closeBlocksTo level outer s).tokens := by
  induction outer generalizing s with
  | nil => exact .refl
  | cons l ls ih =>
    rw [closeBlocksTo]
    split
    · refine Grows.trans ?_ (ih _)
      exact .emit .blockEnd .refl
    · exact .refl

theorem grows_closeBlocks (s : Scan) (level : Nat) :
    Grows s.tokens (s.closeBlocks level).tokens := by
  rw [closeBlocks]
  split
  · exact .refl
  · exact grows_closeBlocksTo level _ s

theorem dropPlace_tokens {s s' : Scan} (h : s.dropPlace = some s') : s'.tokens = s.tokens := by
  rw [dropPlace] at h
  split at h
  · split at h
    · simp at h
    · rw [← Option.some.inj h]
  · rw [← Option.some.inj h]

theorem savePlace_tokens {s s' : Scan} (h : s.savePlace = some s') : s'.tokens = s.tokens := by
  rw [savePlace] at h
  split at h
  · obtain ⟨u, hu, h⟩ := Option.bind_eq_some_iff.1 h
    rw [← Option.some.inj h]
    show u.tokens = s.tokens
    exact dropPlace_tokens hu
  · rw [← Option.some.inj h]

theorem expireAll_tokens {s s' : Scan} (h : s.expireAll = some s') : s'.tokens = s.tokens := by
  rw [expireAll] at h
  obtain ⟨place, -, h⟩ := Option.bind_eq_some_iff.1 h
  obtain ⟨places, -, h⟩ := Option.bind_eq_some_iff.1 h
  rw [← Option.some.inj h]

theorem grows_leaveBlocks {s s' : Scan} (h : s.leaveBlocks = some s') :
    Grows s.tokens s'.tokens := by
  obtain ⟨u, hu, rfl⟩ := Option.map_eq_some_iff.1 h
  have hclosed := grows_closeBlocks s 0
  rw [← dropPlace_tokens hu] at hclosed
  exact hclosed

/-- A token is emitted once the state has dropped its possible key. -/
theorem adds_of_dropPlace {s u s' : Scan} {t : Token} {ts : List Token} (h : s.dropPlace = some u)
    (hs : s'.tokens = t :: ts) (hts : ts = u.tokens) : Adds s s' t :=
  ⟨ts, hs, by rw [hts, dropPlace_tokens h]; exact .refl⟩

theorem adds_of_savePlace {s u s' : Scan} {t : Token} {ts : List Token} (h : s.savePlace = some u)
    (hs : s'.tokens = t :: ts) (hts : ts = u.tokens) : Adds s s' t :=
  ⟨ts, hs, by rw [hts, savePlace_tokens h]; exact .refl⟩

theorem adds_marker {s s' : Scan} {t : Token} (h : s.marker t = some s') : Adds s s' t := by
  obtain ⟨u, hu, rfl⟩ := Option.map_eq_some_iff.1 h
  exact ⟨u.tokens, rfl, grows_leaveBlocks hu⟩

theorem adds_openFlow {s s' : Scan} {t : Token} (h : s.openFlow t = some s') : Adds s s' t := by
  obtain ⟨u, hu, rfl⟩ := Option.map_eq_some_iff.1 h
  exact adds_of_savePlace hu rfl rfl

theorem adds_closeFlow {s s' : Scan} {t : Token} (h : s.closeFlow t = some s') : Adds s s' t := by
  obtain ⟨u, hu, rfl⟩ := Option.map_eq_some_iff.1 h
  cases hplaces : u.outerPlaces with
  | nil => exact adds_of_dropPlace hu rfl rfl
  | cons p ps => exact adds_of_dropPlace hu rfl rfl

theorem adds_flowEntry {s s' : Scan} (h : s.flowEntry = some s') : Adds s s' .flowEntry := by
  obtain ⟨u, hu, rfl⟩ := Option.map_eq_some_iff.1 h
  exact adds_of_dropPlace hu rfl rfl

theorem adds_blockEntry {s s' : Scan} (h : s.blockEntry = some s') : Adds s s' .blockEntry := by
  rw [blockEntry] at h
  split at h
  · simp at h
  · obtain ⟨u, hu, rfl⟩ := Option.map_eq_some_iff.1 h
    exact (adds_of_dropPlace hu rfl rfl).of_grows (grows_openBlock s _ _ (Or.inr (Or.inr rfl)))

theorem adds_explicitKey {s s' : Scan} (h : s.explicitKey = some s') : Adds s s' .key := by
  rw [explicitKey] at h
  split at h
  · simp at h
  · obtain ⟨u, hu, rfl⟩ := Option.map_eq_some_iff.1 h
    exact (adds_of_dropPlace hu rfl rfl).of_grows (grows_openBlock s _ _ (Or.inr (Or.inl rfl)))

theorem adds_colon {s s' : Scan} (h : s.colon = some s') : Adds s s' .value := by
  rw [colon] at h
  split at h
  · rename_i p _
    rw [← Option.some.inj h]
    refine ⟨_, rfl, ?_⟩
    exact (grows_emitAt s p.index (Or.inl rfl)).trans
      (grows_openBlock _ p.column p.index (Or.inr (Or.inl rfl)))
  · split at h
    · simp at h
    · rw [← Option.some.inj h]
      exact ⟨_, rfl, grows_openBlock s _ _ (Or.inr (Or.inl rfl))⟩

theorem adds_named {s s' : Scan} {token : List Char → Token} (h : s.named token = some s') :
    ∃ name, Adds s s' (token name) := by
  rw [named] at h
  obtain ⟨u, hu, h⟩ := Option.bind_eq_some_iff.1 h
  dsimp only at h
  split at h
  · simp at h
  · rw [← Option.some.inj h]
    exact ⟨_, adds_of_savePlace hu rfl rfl⟩

theorem adds_tagged {s s' : Scan} (h : s.tagged = some s') : ∃ t, Adds s s' (.tag t) := by
  rw [tagged] at h
  obtain ⟨u, hu, h⟩ := Option.bind_eq_some_iff.1 h
  obtain ⟨⟨t, r⟩, -, h⟩ := Option.bind_eq_some_iff.1 h
  rw [← Option.some.inj h]
  exact ⟨t, adds_of_savePlace hu rfl rfl⟩

theorem adds_block {s s' : Scan} {folded : Bool} (h : s.block folded = some s') :
    ∃ text, Adds s s' (.scalar false text) := by
  rw [block] at h
  obtain ⟨u, hu, h⟩ := Option.bind_eq_some_iff.1 h
  obtain ⟨r, -, h⟩ := Option.bind_eq_some_iff.1 h
  rw [← Option.some.inj h]
  exact ⟨r.text, adds_of_dropPlace hu rfl rfl⟩

theorem adds_quoted {s s' : Scan} {single : Bool} (h : s.quoted single = some s') :
    ∃ text, Adds s s' (.scalar false text) := by
  rw [quoted] at h
  obtain ⟨u, hu, h⟩ := Option.bind_eq_some_iff.1 h
  obtain ⟨r, -, h⟩ := Option.bind_eq_some_iff.1 h
  rw [← Option.some.inj h]
  exact ⟨r.text, adds_of_savePlace hu rfl rfl⟩

theorem adds_plain {s s' : Scan} (h : s.plain = some s') :
    ∃ text, Adds s s' (.scalar true text) := by
  rw [plain] at h
  obtain ⟨u, hu, h⟩ := Option.bind_eq_some_iff.1 h
  obtain ⟨r, -, h⟩ := Option.bind_eq_some_iff.1 h
  rw [← Option.some.inj h]
  exact ⟨r.text, adds_of_savePlace hu rfl rfl⟩

theorem readDirective_ne {name r r' : List Char} {t : Token}
    (h : readDirective name r = some (t, r')) : t ≠ .documentEnd := by
  -- Either directive has a token of its own, and any other name has none.
  rw [readDirective] at h
  dsimp only at h
  split at h
  · split at h
    · obtain ⟨⟨minor, u⟩, -, h⟩ := Option.map_eq_some_iff.1 h
      rintro rfl
      simp at h
    · simp at h
  · split at h
    · split at h
      · split at h
        · split at h
          · split at h
            · rintro rfl
              simp at h
            · simp at h
          · simp at h
        · simp at h
      · simp at h
    · simp at h

/-- A directive adds a token, and never the end of a document. -/
theorem adds_directive {s s' : Scan} (h : s.directive = some s') :
    ∃ t, Adds s s' t ∧ t ≠ .documentEnd := by
  rw [directive] at h
  obtain ⟨u, hu, h⟩ := Option.bind_eq_some_iff.1 h
  dsimp only at h
  split at h
  · simp at h
  · obtain ⟨⟨t, r⟩, hread, h⟩ := Option.bind_eq_some_iff.1 h
    simp only [Option.ite_none_left_eq_some, Option.some.injEq] at h
    obtain ⟨-, rfl⟩ := h
    exact ⟨t, ⟨u.tokens, rfl, grows_leaveBlocks hu⟩, readDirective_ne hread⟩

/-- Every step adds a token, and ends the document at a marker only. -/
theorem adds_readToken {s s' : Scan} {x : Char} {r : List Char} (h : s.readToken x r = some s') :
    ∃ t, Adds s s' t ∧ (s.cursor.atMarker = false → t ≠ .documentEnd) := by
  rw [readToken] at h
  have hno {t : Token} (ht : Adds s s' t) (hne : t ≠ .documentEnd) :
      ∃ t, Adds s s' t ∧ (s.cursor.atMarker = false → t ≠ .documentEnd) := ⟨t, ht, fun _ => hne⟩
  -- One case for each way a token can begin, in the order in which they are tried.
  rcases ite_eq_iff.1 h with ⟨-, h⟩ | ⟨-, h⟩
  · obtain ⟨t, ht, hne⟩ := adds_directive h
    exact hno ht hne
  rcases ite_eq_iff.1 h with ⟨hmarker, h⟩ | ⟨-, h⟩
  · exact ⟨_, adds_marker h, fun hno => by simp [hmarker] at hno⟩
  rcases ite_eq_iff.1 h with ⟨-, h⟩ | ⟨-, h⟩
  · exact hno (adds_openFlow h) (by simp)
  rcases ite_eq_iff.1 h with ⟨-, h⟩ | ⟨-, h⟩
  · exact hno (adds_openFlow h) (by simp)
  rcases ite_eq_iff.1 h with ⟨-, h⟩ | ⟨-, h⟩
  · exact hno (adds_closeFlow h) (by simp)
  rcases ite_eq_iff.1 h with ⟨-, h⟩ | ⟨-, h⟩
  · exact hno (adds_closeFlow h) (by simp)
  rcases ite_eq_iff.1 h with ⟨-, h⟩ | ⟨-, h⟩
  · exact hno (adds_flowEntry h) (by simp)
  rcases ite_eq_iff.1 h with ⟨-, h⟩ | ⟨-, h⟩
  · exact hno (adds_blockEntry h) (by simp)
  rcases ite_eq_iff.1 h with ⟨-, h⟩ | ⟨-, h⟩
  · exact hno (adds_explicitKey h) (by simp)
  rcases ite_eq_iff.1 h with ⟨-, h⟩ | ⟨-, h⟩
  · exact hno (adds_colon h) (by simp)
  rcases ite_eq_iff.1 h with ⟨-, h⟩ | ⟨-, h⟩
  · obtain ⟨_, ht⟩ := adds_named h
    exact hno ht (by simp)
  rcases ite_eq_iff.1 h with ⟨-, h⟩ | ⟨-, h⟩
  · obtain ⟨_, ht⟩ := adds_named h
    exact hno ht (by simp)
  rcases ite_eq_iff.1 h with ⟨-, h⟩ | ⟨-, h⟩
  · obtain ⟨_, ht⟩ := adds_tagged h
    exact hno ht (by simp)
  rcases ite_eq_iff.1 h with ⟨-, h⟩ | ⟨-, h⟩
  · obtain ⟨_, ht⟩ := adds_block h
    exact hno ht (by simp)
  rcases ite_eq_iff.1 h with ⟨-, h⟩ | ⟨-, h⟩
  · obtain ⟨_, ht⟩ := adds_block h
    exact hno ht (by simp)
  rcases ite_eq_iff.1 h with ⟨-, h⟩ | ⟨-, h⟩
  · obtain ⟨_, ht⟩ := adds_quoted h
    exact hno ht (by simp)
  rcases ite_eq_iff.1 h with ⟨-, h⟩ | ⟨-, h⟩
  · obtain ⟨_, ht⟩ := adds_quoted h
    exact hno ht (by simp)
  rcases ite_eq_iff.1 h with ⟨-, h⟩ | ⟨-, h⟩
  · obtain ⟨_, ht⟩ := adds_plain h
    exact hno ht (by simp)
  · simp at h

end Scan

end Workflow.Yaml
