import Workflow.Proofs.Yaml.Atom
import Workflow.Proofs.Yaml.Trees
/-!
Which tokens stand for which value. Tokens that are so built are composed to a node with this value,
whatever follows them.
-/

namespace Workflow.Yaml

mutual

inductive Denotes : Tree → List Token → Prop
  | atom {source : List Char} {plain : Bool} {v : Tree} {ts : List Token}
      (atom : Atom source plain v ts) :
      Denotes v ts
  | sequence {vs : List Tree} {ts : List Token} (items : ItemTokens vs ts) :
      Denotes (.sequence vs) (.blockSequenceStart :: (ts ++ [.blockEnd]))
  | mapping {es : List (Tree × Tree)} {ts : List Token} (entries : EntryTokens es ts)
      (distinct : es.Pairwise fun a b => a.1.same b.1 = false) :
      Denotes (.mapping es) (.blockMappingStart :: (ts ++ [.blockEnd]))

/-- What stands below a hyphen or behind a colon, and its tokens. Only behind a colon it can be a
sequence without a start and an end. -/
inductive Below : (indentless : Bool) → Tree → List Token → Prop
  | empty {indentless : Bool} : Below indentless .null []
  | node {indentless : Bool} {v : Tree} {ts : List Token} (node : Denotes v ts) :
      Below indentless v ts
  | level {vs : List Tree} {ts : List Token} (items : ItemTokens vs ts) (filled : vs ≠ []) :
      Below true (.sequence vs) ts

inductive ItemTokens : List Tree → List Token → Prop
  | nil : ItemTokens [] []
  | cons {v : Tree} {vs : List Tree} {ts us : List Token} (item : Below false v ts)
      (others : ItemTokens vs us) : ItemTokens (v :: vs) (.blockEntry :: (ts ++ us))

inductive EntryTokens : List (Tree × Tree) → List Token → Prop
  | nil : EntryTokens [] []
  | cons {source : List Char} {plain : Bool} {k v : Tree} {es : List (Tree × Tree)}
      {ks ts us : List Token}
      (key : Atom source plain k ks) (value : Below true v ts) (others : EntryTokens es us) :
      EntryTokens ((k, v) :: es) (.key :: (ks ++ .value :: (ts ++ us)))

end

/-- A node begins with no token that could end what is before it. -/
theorem Denotes.exists_cons {v : Tree} {ts : List Token} (h : Denotes v ts) :
    ∃ t us, ts = t :: us ∧ t ∉ [.blockEntry, .key, .value, .blockEnd] ∧
      Compose.endsDocument (some t) = false := by
  cases h with
  | atom atom =>
    cases atom with
    | scalar => exact ⟨_, _, rfl, by simp, rfl⟩
    | sequence => exact ⟨_, _, rfl, by simp, rfl⟩
    | mapping => exact ⟨_, _, rfl, by simp, rfl⟩
  | sequence => exact ⟨_, _, rfl, by simp, rfl⟩
  | mapping => exact ⟨_, _, rfl, by simp, rfl⟩

theorem depth_of_readIntTree? {text : List Char} {result : Option Tree} {v : Tree}
    (h : readIntTree? text = some result) (hv : result = some v) : v.depth = 0 := by
  subst hv
  rw [readIntTree?] at h
  split at h
  · split at h
    · exact Option.some.inj (Option.some.inj h) ▸ rfl
    · simp at h
    · simp at h
  · simp at h

/-- A scalar is no collection. -/
theorem depth_of_scalarTree? {plain : Bool} {text : List Char} {v : Tree}
    (h : scalarTree? none plain text = some v) : v.depth = 0 := by
  cases plain with
  | false => exact Option.some.inj h ▸ rfl
  | true =>
    have h : plainTree? text = some v := h
    rw [plainTree?] at h
    split at h
    · exact Option.some.inj h ▸ rfl
    · split at h
      · exact Option.some.inj h ▸ rfl
      · split at h
        · rename_i result hint
          exact depth_of_readIntTree? hint h
        · split at h
          · exact Option.some.inj h ▸ rfl
          · exact Option.some.inj h ▸ rfl

/-- Behind an item comes another one or what follows the items. -/
theorem ItemTokens.head? {vs : List Tree} {us rest ends : List Token} (h : ItemTokens vs us)
    (hends : .blockEntry ∈ ends) (hrest : ∃ t ∈ rest.head?, t ∈ ends) :
    ∃ t ∈ (us ++ rest).head?, t ∈ ends := by
  cases h with
  | nil => exact hrest
  | cons => exact ⟨_, rfl, hends⟩

/-- Behind an entry comes another one or what follows the entries. -/
theorem EntryTokens.head? {es : List (Tree × Tree)} {us rest ends : List Token}
    (h : EntryTokens es us) (hends : .key ∈ ends) (hrest : ∃ t ∈ rest.head?, t ∈ ends) :
    ∃ t ∈ (us ++ rest).head?, t ∈ ends := by
  cases h with
  | nil => exact hrest
  | cons => exact ⟨_, rfl, hends⟩

namespace Compose

variable {handles : List TagHandle} {names : List (List Char × Nat)}

theorem node_atom {source : List Char} {plain : Bool} {v : Tree} {ts : List Token}
    (h : Atom source plain v ts) :
    ∃ n : Node, n.Means v ∧ ∀ fuel place rest, 2 ≤ fuel →
      node fuel place ⟨ts ++ rest, handles, names⟩ = some (n, ⟨rest, handles, names⟩) := by
  cases h with
  | @scalar source value plain v written read =>
    refine ⟨_, Node.means_scalar read (depth_of_scalarTree? read), fun fuel place rest hf => ?_⟩
    obtain ⟨fuel, rfl⟩ : ∃ f, fuel = f + 1 := ⟨fuel - 1, by omega⟩
    simp [node, peek, takeProperties, takeAnchor, takeTag, skip]
  | sequence =>
    refine ⟨_, Node.means_sequence .nil, fun fuel place rest hf => ?_⟩
    obtain ⟨fuel, rfl⟩ : ∃ f, fuel = f + 2 := ⟨fuel - 2, by omega⟩
    simp [node, peek, takeProperties, takeAnchor, takeTag, skip, flowItems, nextIs, nextIsIn]
  | mapping =>
    refine ⟨_, Node.means_mapping .nil .nil, fun fuel place rest hf => ?_⟩
    obtain ⟨fuel, rfl⟩ : ∃ f, fuel = f + 2 := ⟨fuel - 2, by omega⟩
    simp [node, peek, takeProperties, takeAnchor, takeTag, skip, flowEntries, nextIs, nextIsIn]

theorem nextIsIn_cons (t : Token) (rest ends : List Token) :
    nextIsIn ⟨t :: rest, handles, names⟩ ends = ends.contains t := rfl

/-- A key and what follows its colon are told apart. -/
theorem nodeUnless_atom {source : List Char} {plain : Bool} {v : Tree} {ts : List Token}
    (h : Atom source plain v ts) :
    ∃ n : Node, n.Means v ∧ ∀ fuel rest, 3 ≤ fuel →
      nodeUnless fuel ⟨true, true⟩ [.key, .value, .blockEnd] ⟨ts ++ rest, handles, names⟩ =
        some (n, ⟨rest, handles, names⟩) := by
  obtain ⟨n, hmeans, hnode⟩ := @node_atom handles names _ _ _ _ h
  refine ⟨n, hmeans, fun fuel rest hf => ?_⟩
  obtain ⟨fuel, rfl⟩ : ∃ f, fuel = f + 1 := ⟨fuel - 1, by omega⟩
  obtain ⟨t, us, hts, ht, -⟩ := (Denotes.atom h).exists_cons
  have hnext : ¬nextIsIn ⟨ts ++ rest, handles, names⟩ [.key, .value, .blockEnd] = true := by
    rw [hts, List.cons_append, nextIsIn_cons, List.contains_eq_mem, decide_eq_true_iff]
    exact fun hmem => ht (List.mem_cons_of_mem _ hmem)
  rw [nodeUnless, if_neg hnext, hnode fuel _ rest (by omega)]

inductive Ends : (indentless : Bool) → List Token → Prop
  | items : Ends false [.blockEntry, .blockEnd]
  | level : Ends false [.blockEntry, .key, .value, .blockEnd]
  | value : Ends true [.key, .value, .blockEnd]

theorem Ends.subset {indentless : Bool} {ends : List Token} (h : Ends indentless ends) :
    ends ⊆ [.blockEntry, .key, .value, .blockEnd] := by
  cases h <;> simp

theorem nextIsIn_of_head? {ends rest : List Token} (h : ∃ t ∈ rest.head?, t ∈ ends) :
    nextIsIn ⟨rest, handles, names⟩ ends = true := by
  obtain ⟨t, ht, hends⟩ := h
  have ht : rest.head? = some t := ht
  simp [nextIsIn, peek, ht, hends]

mutual

/-- Tokens that denote a value are read as a node of this value, whatever follows. -/
theorem node_of_denotes {v : Tree} {ts : List Token} (h : Denotes v ts) :
    ∃ n : Node, n.Means v ∧ ∀ fuel indentless rest, 3 * ts.length + 2 ≤ fuel →
      node fuel ⟨true, indentless⟩ ⟨ts ++ rest, handles, names⟩ =
        some (n, ⟨rest, handles, names⟩) := by
  match h with
  | .atom atom =>
    obtain ⟨n, hmeans, hnode⟩ := @node_atom handles names _ _ _ _ atom
    exact ⟨n, hmeans, fun fuel indentless rest hf => hnode fuel _ rest (by omega)⟩
  | @Denotes.sequence vs ts items =>
    obtain ⟨ns, hmeans, hitems, -⟩ := blockItems_of_itemTokens items
    refine ⟨_, Node.means_sequence hmeans, fun fuel indentless rest hf => ?_⟩
    obtain ⟨fuel, rfl⟩ : ∃ f, fuel = f + 1 := ⟨fuel - 1, by omega⟩
    -- Every token stands for three calls, and start and end make room for those of the block
    -- itself.
    have hlen : (Token.blockSequenceStart :: (ts ++ [.blockEnd])).length = ts.length + 2 := by simp
    have hrun := hitems fuel [] rest (by omega)
    simp [node, peek, takeProperties, takeAnchor, takeTag, skip, hrun]
  | @Denotes.mapping es ts entries distinct =>
    obtain ⟨ns, hmeans, hentries⟩ := blockEntries_of_entryTokens entries
    refine ⟨_, Node.means_mapping hmeans distinct, fun fuel indentless rest hf => ?_⟩
    obtain ⟨fuel, rfl⟩ : ∃ f, fuel = f + 1 := ⟨fuel - 1, by omega⟩
    have hlen : (Token.blockMappingStart :: (ts ++ [.blockEnd])).length = ts.length + 2 := by simp
    have hrun := hentries fuel [] rest (by omega)
    simp [node, peek, takeProperties, takeAnchor, takeTag, skip, hrun]

theorem nodeUnless_of_below {indentless : Bool} {v : Tree} {ts : List Token}
    (h : Below indentless v ts) :
    ∃ n : Node, n.Means v ∧ ∀ fuel ends rest, 3 * ts.length + 3 ≤ fuel → Ends indentless ends →
      (∃ t ∈ rest.head?, t ∈ ends) → nodeUnless fuel ⟨true, indentless⟩ ends
        ⟨ts ++ rest, handles, names⟩ =
        some (n, ⟨rest, handles, names⟩) := by
  match h with
  | .empty =>
    refine ⟨.empty, Node.means_scalar rfl rfl, fun fuel ends rest hf _ hrest => ?_⟩
    obtain ⟨fuel, rfl⟩ : ∃ f, fuel = f + 1 := ⟨fuel - 1, by omega⟩
    rw [List.nil_append, nodeUnless, if_pos (nextIsIn_of_head? hrest)]
  | .node denotes =>
    obtain ⟨n, hmeans, hnode⟩ := node_of_denotes denotes
    refine ⟨n, hmeans, fun fuel ends rest hf hends _ => ?_⟩
    obtain ⟨fuel, rfl⟩ : ∃ f, fuel = f + 1 := ⟨fuel - 1, by omega⟩
    have hnext : ¬nextIsIn ⟨ts ++ rest, handles, names⟩ ends = true := by
      obtain ⟨t, us, hts, ht, -⟩ := denotes.exists_cons
      rw [hts, List.cons_append, nextIsIn_cons, List.contains_eq_mem, decide_eq_true_iff]
      exact fun hmem => ht (hends.subset hmem)
    rw [nodeUnless, if_neg hnext, hnode fuel indentless rest (by omega)]
  | @Below.level vs ts items filled =>
    obtain ⟨ns, hmeans, -, hitems⟩ := blockItems_of_itemTokens items
    refine ⟨_, Node.means_sequence hmeans, fun fuel ends rest hf hends hrest => ?_⟩
    obtain ⟨fuel, rfl⟩ : ∃ f, fuel = f + 2 := ⟨fuel - 2, by omega⟩
    -- Only the value of a key may be a sequence at its column, so the ends are those of a value.
    cases hends with
    | value =>
      have hrun := hitems fuel [] rest (by omega) hrest
      cases items with
      | nil => exact absurd rfl filled
      | cons item others =>
        rw [nodeUnless, List.cons_append, nextIsIn_cons, List.append_assoc]
        rw [List.cons_append, List.append_assoc] at hrun
        simp [node, peek, takeProperties, takeAnchor, takeTag, hrun]

theorem blockItems_of_itemTokens {vs : List Tree} {ts : List Token} (h : ItemTokens vs ts) :
    ∃ ns : List Node, List.Forall₂ Node.Means ns vs ∧
      (∀ fuel read rest, 3 * ts.length + 1 ≤ fuel →
        blockItems fuel read ⟨ts ++ .blockEnd :: rest, handles, names⟩ =
          some (read.reverse ++ ns, ⟨rest, handles, names⟩)) ∧
      ∀ fuel read rest, 3 * ts.length + 1 ≤ fuel →
        (∃ t ∈ rest.head?, t ∈ [.key, .value, .blockEnd]) →
        indentlessItems fuel read ⟨ts ++ rest, handles, names⟩ =
          some (read.reverse ++ ns, ⟨rest, handles, names⟩) := by
  -- One list of nodes for both readers: of a sequence that is closed by a token, and of one at the
  -- column of its key.
  match h with
  | .nil =>
    refine ⟨[], .nil, fun fuel read rest hf => ?_, fun fuel read rest hf hrest => ?_⟩
    · obtain ⟨fuel, rfl⟩ : ∃ f, fuel = f + 1 := ⟨fuel - 1, by omega⟩
      simp [blockItems, nextIs, nextIsIn_cons, skip]
    · obtain ⟨fuel, rfl⟩ : ∃ f, fuel = f + 1 := ⟨fuel - 1, by omega⟩
      obtain ⟨t, ht, hends⟩ := hrest
      have hnext : ¬nextIs ⟨rest, handles, names⟩ .blockEntry = true := by
        have ht : rest.head? = some t := ht
        simp only [nextIs, nextIsIn, peek, ht, List.contains_cons, List.contains_nil]
        rcases List.mem_cons.1 hends with rfl | hends
        · simp
        · rcases List.mem_cons.1 hends with rfl | hends
          · simp
          · rw [List.mem_singleton.1 hends]
            simp
      rw [List.nil_append, indentlessItems, if_neg hnext, List.append_nil]
  | @ItemTokens.cons v vs ts us item others =>
    obtain ⟨n, hmean, hnode⟩ := nodeUnless_of_below item
    obtain ⟨ns, hmeans, hblock, hlevel⟩ := blockItems_of_itemTokens others
    have hlen : (Token.blockEntry :: (ts ++ us)).length = ts.length + us.length + 1 := by simp
    have hnext (rest : List Token) : nextIs ⟨.blockEntry :: rest, handles, names⟩ .blockEntry =
        true := rfl
    refine ⟨n :: ns, .cons hmean hmeans, fun fuel read rest hf => ?_,
      fun fuel read rest hf hrest => ?_⟩
    · obtain ⟨fuel, rfl⟩ : ∃ f, fuel = f + 1 := ⟨fuel - 1, by omega⟩
      have hhead := @ItemTokens.head? _ _ (.blockEnd :: rest) [.blockEntry, .blockEnd]
        others (by simp) ⟨_, rfl, by simp⟩
      have hitem := hnode fuel _ _ (by omega) .items hhead
      have hrest := hblock fuel (n :: read) rest (by omega)
      rw [List.cons_append, List.append_assoc, blockItems, if_pos (hnext _)]
      simp only [skip, List.drop_succ_cons, List.drop_zero, hitem, hrest]
      simp
    · obtain ⟨fuel, rfl⟩ : ∃ f, fuel = f + 1 := ⟨fuel - 1, by omega⟩
      have hhead := @ItemTokens.head? _ _ rest [.blockEntry, .key, .value, .blockEnd] others
        (by simp) (by
        obtain ⟨t, ht, hends⟩ := hrest
        exact ⟨t, ht, List.mem_cons_of_mem _ hends⟩)
      have hitem := hnode fuel _ _ (by omega) .level hhead
      have hrest := hlevel fuel (n :: read) rest (by omega) hrest
      rw [List.cons_append, List.append_assoc, indentlessItems, if_pos (hnext _)]
      simp only [skip, List.drop_succ_cons, List.drop_zero, hitem, hrest]
      simp

/-- Entries are read one after another, up to the end of their block. -/
theorem blockEntries_of_entryTokens {es : List (Tree × Tree)} {ts : List Token}
    (h : EntryTokens es ts) :
    ∃ ns : List (Node × Node),
      List.Forall₂ (fun n e => Node.Means n.1 e.1 ∧ Node.Means n.2 e.2) ns es ∧
      ∀ fuel read rest, 3 * ts.length + 1 ≤ fuel →
        blockEntries fuel read ⟨ts ++ .blockEnd :: rest, handles, names⟩ =
          some (read.reverse ++ ns, ⟨rest, handles, names⟩) := by
  match h with
  | .nil =>
    refine ⟨[], .nil, fun fuel read rest hf => ?_⟩
    obtain ⟨fuel, rfl⟩ : ∃ f, fuel = f + 1 := ⟨fuel - 1, by omega⟩
    simp [blockEntries, nextIs, nextIsIn_cons, skip]
  | @EntryTokens.cons source plain k v es ks ts us key value others =>
    obtain ⟨n, hmean, hkey⟩ := @nodeUnless_atom handles names _ _ _ _ key
    obtain ⟨n', hmean', hvalue⟩ := nodeUnless_of_below value
    obtain ⟨ns, hmeans, hblock⟩ := blockEntries_of_entryTokens others
    refine ⟨(n, n') :: ns, .cons ⟨hmean, hmean'⟩ hmeans, fun fuel read rest hf => ?_⟩
    have hlen : (Token.key :: (ks ++ .value :: (ts ++ us))).length =
        ks.length + ts.length + us.length + 2 := by
      simp only [List.length_cons, List.length_append]
      omega
    -- The key is read with one unit of fuel less, and the value with two.
    obtain ⟨fuel, rfl⟩ : ∃ f, fuel = f + 2 := ⟨fuel - 2, by omega⟩
    have hhead := @EntryTokens.head? _ _ (.blockEnd :: rest) [.key, .value, .blockEnd]
      others (by simp) ⟨_, rfl, by simp⟩
    have hkey := hkey (fuel + 1) (.value :: (ts ++ (us ++ .blockEnd :: rest))) (by omega)
    have hvalue := hvalue fuel _ _ (by omega) .value hhead
    have hrest := hblock (fuel + 1) ((n, n') :: read) rest (by omega)
    have hnext (rest : List Token) : nextIs ⟨.key :: rest, handles, names⟩ .key = true := rfl
    have hcolon (rest : List Token) : nextIs ⟨.value :: rest, handles, names⟩ .value = true := rfl
    have hassoc : .key :: (ks ++ .value :: (ts ++ us)) ++ .blockEnd :: rest =
        .key :: (ks ++ .value :: (ts ++ (us ++ .blockEnd :: rest))) := by simp
    rw [hassoc, blockEntries, if_pos (hnext _)]
    simp only [skip, List.drop_succ_cons, List.drop_zero, hkey, valueUnless, if_pos (hcolon _),
      hvalue, hrest]
    simp

end

/-- The tokens of a node make a document, with or without a marker in front. -/
theorem document?_of_denotes {v : Tree} {ts : List Token} (h : Denotes v ts) {front : List Token}
    (hfront : front = [] ∨ front = [.documentStart]) :
    ∃ n : Node, n.Means v ∧ document? (front ++ ts) = some ⟨some n⟩ := by
  obtain ⟨n, hmeans, hnode⟩ := @node_of_denotes standardHandles [] _ _ h
  obtain ⟨t, us, hts, -, hends⟩ := h.exists_cons
  have hrun := hnode (4 * ts.length + 4) false [] (by omega)
  rw [List.append_nil] at hrun
  have hcontent : content ⟨ts, standardHandles, []⟩ = some (n, ⟨[], standardHandles, []⟩) := hrun
  have hempty : ts.isEmpty = false := by rw [hts]; rfl
  refine ⟨n, hmeans, ?_⟩
  rcases hfront with rfl | rfl
  · have hexplicit : isExplicit ts.head? = false := by
      rw [hts]
      cases t <;> first | rfl | simp [endsDocument] at hends
    simp [document?, document, hempty, hexplicit, hcontent]
  · have hsome : endsDocument (peek ⟨ts, standardHandles, []⟩) = false := by rw [hts]; exact hends
    simp [document?, document, isExplicit, directives, hsome, hcontent]

end Compose

end Workflow.Yaml
