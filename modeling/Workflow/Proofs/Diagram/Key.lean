import Workflow.Diagram
import Workflow.Proofs.Table
import Mathlib.Data.List.Nodup
import Mathlib.Data.List.Perm.Subperm

namespace Workflow.Diagram

def KeyChar (c : Char) : Prop :=
  ('A' ≤ c ∧ c ≤ 'Z') ∨ ('a' ≤ c ∧ c ≤ 'z') ∨ ('0' ≤ c ∧ c ≤ '9') ∨ c = '_' ∨ c = '-'

/-- A text that can stand as a key: it has characters of keys only, and at least one. -/
structure IsKey (text : String) : Prop where
  filled : text ≠ ""
  chars : ∀ c ∈ text.toList, KeyChar c

/-- How the search for a free key ends: with the first candidate that is not taken, where each
candidate has one underscore more than the one before it. -/
inductive SearchEnds (taken : List String) : String → String → Prop
  | free {key : String} (free : key ∉ taken) : SearchEnds taken key key
  | grow {key result : String} (inUse : key ∈ taken)
    (further : SearchEnds taken (key ++ "_") result) :
    SearchEnds taken key result

def grown (key : String) (n : Nat) : String :=
  key ++ String.ofList (List.replicate n '_')

theorem isKeyChar_iff {c : Char} : isKeyChar c = true ↔ KeyChar c := by
  have hupper : c.isUpper = true ↔ 'A' ≤ c ∧ c ≤ 'Z' := decide_eq_true_iff
  have hrange (a b : Char) : (decide (c.val ≥ a.val) && decide (c.val ≤ b.val)) = true ↔
      a ≤ c ∧ c ≤ b := by
    rw [Bool.and_eq_true, decide_eq_true_iff, decide_eq_true_iff]
    rfl
  have hlower : c.isLower = true ↔ 'a' ≤ c ∧ c ≤ 'z' := hrange 'a' 'z'
  have hdigit : c.isDigit = true ↔ '0' ≤ c ∧ c ≤ '9' := hrange '0' '9'
  have halnum : c.isAlphanum = ((c.isUpper || c.isLower) || c.isDigit) := rfl
  rw [isKeyChar, KeyChar, halnum]
  simp only [Bool.or_eq_true, hupper, hlower, hdigit, beq_iff_eq, or_assoc]

theorem isPlainId_iff {id : String} : isPlainId id = true ↔ IsKey id := by
  simp only [isPlainId, Bool.and_eq_true, List.all_eq_true, isKeyChar_iff]
  constructor
  · rintro ⟨hfilled, hchars⟩
    exact ⟨by simpa using hfilled, hchars⟩
  · rintro ⟨hfilled, hchars⟩
    exact ⟨by simpa using hfilled, hchars⟩

theorem grown_succ (key : String) (n : Nat) : grown (key ++ "_") n = grown key (n + 1) := by
  rw [grown, grown, List.replicate_succ, ← String.toList_inj]
  simp

theorem grown_injective (key : String) : Function.Injective (grown key) := by
  intro m n h
  have hlength := congrArg (fun text => text.toList.length) h
  simpa [grown] using hlength

/-- Either the search ends within the fuel, or all candidates so far are taken. -/
theorem searchEnds_or_taken (taken : List String) (fuel : Nat) (key : String) :
    SearchEnds taken key (freeKey taken fuel key) ∨ ∀ n < fuel, grown key n ∈ taken := by
  induction fuel generalizing key with
  | zero => exact Or.inr fun n hn => absurd hn (Nat.not_lt_zero n)
  | succ fuel ih =>
    rw [freeKey]
    split
    · rename_i hkey
      -- Behind a candidate that is taken the search goes on with one underscore more.
      rcases ih (key ++ "_") with hends | htaken
      · exact Or.inl (.grow hkey hends)
      · refine Or.inr ?_
        intro n hn
        cases n with
        | zero => simpa [grown] using hkey
        | succ n => exact grown_succ key n ▸ htaken n (Nat.lt_of_succ_lt_succ hn)
    · rename_i hkey
      exact Or.inl (.free hkey)

/-- The search ends: among more candidates than there are taken keys, one is free. -/
theorem searchEnds_freeKey (taken : List String) (key : String) :
    SearchEnds taken key (freeKey taken (taken.length + 1) key) := by
  rcases searchEnds_or_taken taken (taken.length + 1) key with hends | htaken
  · exact hends
  · -- Were all candidates taken, they would be more than the taken keys, since no two of them are
    -- the same.
    have hnodup : ((List.range (taken.length + 1)).map (grown key)).Nodup :=
      List.nodup_range.map (grown_injective key)
    have hsubset : (List.range (taken.length + 1)).map (grown key) ⊆ taken := by
      intro candidate hcandidate
      obtain ⟨n, hn, rfl⟩ := List.mem_map.1 hcandidate
      exact htaken n (List.mem_range.1 hn)
    have hlength := (hnodup.subperm hsubset).length_le
    rw [List.length_map, List.length_range] at hlength
    omega

theorem SearchEnds.notMem {taken : List String} {key result : String}
    (h : SearchEnds taken key result) :
    result ∉ taken := by
  induction h with
  | free free => exact free
  | grow _ _ ih => exact ih

theorem SearchEnds.exists_grown {taken : List String} {key result : String}
    (h : SearchEnds taken key result) : ∃ n, result = grown key n := by
  induction h with
  | free _ => exact ⟨0, by simp [grown]⟩
  | grow _ _ ih =>
    obtain ⟨n, rfl⟩ := ih
    exact ⟨n + 1, grown_succ _ n⟩

def positional (position : Nat) : String :=
  "step_" ++ toString position

/-- The digits of a position are what stands before the underscores. -/
theorem takeWhile_isDigit_grown (position n : Nat) :
    ((grown (positional position) n).toList.drop "step_".toList.length).takeWhile Char.isDigit =
      Nat.toDigits 10 position := by
  have hdigits : ∀ c ∈ Nat.toDigits 10 position, c.isDigit = true := fun c hc =>
    Nat.isDigit_of_mem_toDigits (by decide) (by decide) hc
  have hunderscores : (List.replicate n '_').takeWhile Char.isDigit = [] := by
    cases n with
    | zero => rfl
    | succ n => rfl
  have htext : (grown (positional position) n).toList =
      "step_".toList ++ (Nat.toDigits 10 position ++ List.replicate n '_') := by
    simp [grown, positional]
  rw [htext, List.drop_left, List.takeWhile_append_of_pos hdigits, hunderscores, List.append_nil]

theorem position_eq_of_grown_eq {i j m n : Nat}
    (h : grown (positional i) m = grown (positional j) n) :
    i = j := by
  have hi := takeWhile_isDigit_grown i m
  rw [h, takeWhile_isDigit_grown] at hi
  have hvalue := congrArg (fun digits => Nat.ofDigitChars 10 digits 0) hi
  simpa using hvalue.symm

/-- Whatever candidate the search stops at can stand as a key. -/
theorem isKey_grown_positional (position n : Nat) : IsKey (grown (positional position) n) := by
  have hhead : "step_".toList.all isKeyChar = true := by decide
  constructor
  · intro hempty
    have hlist := congrArg String.toList hempty
    simp [grown, positional] at hlist
  · intro c hc
    simp only [grown, positional, Nat.toString_eq_ofList_toDigits, String.toList_append,
      String.toList_ofList, List.mem_append, List.mem_replicate] at hc
    rcases hc with (hc | hc) | ⟨-, rfl⟩
    · exact isKeyChar_iff.1 (List.all_eq_true.1 hhead c hc)
    · have hdigit : c.isDigit = true := Nat.isDigit_of_mem_toDigits (by decide) (by decide) hc
      rw [← isKeyChar_iff, isKeyChar, Char.isAlphanum, hdigit]
      simp
    · exact isKeyChar_iff.1 (by decide)

section Nodes

variable (nodes : List FlowNode)

theorem keysFrom_eq_mapIdx (taken : List String) (position : Nat) (nodes : List FlowNode) :
    keysFrom taken position nodes = nodes.mapIdx fun i n =>
      (n.id, nodeKey taken (position + i) n) := by
  induction nodes generalizing position with
  | nil => rfl
  | cons n rest ih =>
    rw [keysFrom, ih, List.mapIdx_cons]
    simp [Nat.add_assoc, Nat.add_comm 1]

theorem map_fst_keys : (keys nodes).map Prod.fst = nodes.map FlowNode.id := by
  rw [keys, keysFrom_eq_mapIdx]
  apply List.ext_getElem?
  intro i
  simp [Function.comp_def]

variable {nodes}

/-- Where no two nodes have one id, the key of an id is that of the node at its position. -/
theorem keyOf_eq {i : Nat} {n : FlowNode} (nodup : (nodes.map FlowNode.id).Nodup)
    (hn : nodes[i]? = some n) :
    keyOf (keys nodes) n.id = nodeKey (plainIds nodes) i n := by
  have hmem : (n.id, nodeKey (plainIds nodes) i n) ∈ keys nodes := by
    apply List.mem_of_getElem? (i := i)
    rw [keys, keysFrom_eq_mapIdx]
    simp [hn]
  rw [keyOf, (lookup_eq_some_iff_mem ((map_fst_keys nodes).symm ▸ nodup)).2 hmem]
  rfl

theorem nodeKey_of_isKey {taken : List String} {i : Nat} {n : FlowNode} (h : IsKey n.id) :
    nodeKey taken i n = n.id := by
  rw [nodeKey, if_pos (isPlainId_iff.2 h)]

theorem searchEnds_nodeKey (taken : List String) (i : Nat) {n : FlowNode} (h : ¬IsKey n.id) :
    SearchEnds taken (positional i) (nodeKey taken i n) := by
  rw [nodeKey, if_neg (fun hplain => h (isPlainId_iff.1 hplain))]
  exact searchEnds_freeKey taken (positional i)

theorem isKey_nodeKey (taken : List String) (i : Nat) (n : FlowNode) :
    IsKey (nodeKey taken i n) := by
  by_cases h : IsKey n.id
  · exact (nodeKey_of_isKey h).symm ▸ h
  · obtain ⟨m, hgrown⟩ := (searchEnds_nodeKey taken i h).exists_grown
    exact hgrown ▸ isKey_grown_positional i m

/-- A key that stands for an id is no step's own id. -/
theorem nodeKey_ne_of_isKey {i j : Nat} {n m : FlowNode} (hm : m ∈ nodes) (hplain : IsKey m.id)
    (h : ¬IsKey n.id) : nodeKey (plainIds nodes) j m ≠ nodeKey (plainIds nodes) i n := by
  intro heq
  have htaken : m.id ∈ plainIds nodes :=
    List.mem_filter.2 ⟨List.mem_map_of_mem hm, isPlainId_iff.2 hplain⟩
  rw [nodeKey_of_isKey hplain] at heq
  exact (searchEnds_nodeKey (plainIds nodes) i h).notMem (heq ▸ htaken)

/-- Different positions have different keys, unless the same id stands at both. -/
theorem nodeKey_injective {i j : Nat} {n m : FlowNode} (hn : n ∈ nodes) (hm : m ∈ nodes)
    (hid : n.id ≠ m.id) (hij : i ≠ j) :
    nodeKey (plainIds nodes) i n ≠ nodeKey (plainIds nodes) j m := by
  -- Two ids of their own differ, a searched key avoids all of them, and two searched keys show
  -- their positions.
  by_cases hplain : IsKey n.id
  · by_cases hplain' : IsKey m.id
    · rw [nodeKey_of_isKey hplain, nodeKey_of_isKey hplain']
      exact hid
    · exact nodeKey_ne_of_isKey hn hplain hplain'
  · by_cases hplain' : IsKey m.id
    · exact (nodeKey_ne_of_isKey hm hplain' hplain).symm
    · obtain ⟨a, ha⟩ := (searchEnds_nodeKey (plainIds nodes) i hplain).exists_grown
      obtain ⟨b, hb⟩ := (searchEnds_nodeKey (plainIds nodes) j hplain').exists_grown
      rw [ha, hb]
      exact fun heq => hij (position_eq_of_grown_eq heq)

end Nodes

end Workflow.Diagram
