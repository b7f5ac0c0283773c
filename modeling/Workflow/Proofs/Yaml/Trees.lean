import Workflow.Yaml.Content
import Mathlib.Data.List.Forall2

namespace Workflow

mutual

def Tree.depth : Tree → Nat
  | .sequence items => depthOfItems items + 1
  | .mapping entries => depthOfEntries entries + 1
  | .tagged _ content => content.depth
  | _ => 0

def Tree.depthOfItems : List Tree → Nat
  | [] => 0
  | v :: vs => max v.depth (depthOfItems vs)

def Tree.depthOfEntries : List (Tree × Tree) → Nat
  | [] => 0
  | (k, v) :: es => max (max k.depth v.depth) (depthOfEntries es)

end

namespace Yaml

def IsCollection (v : Tree) : Prop :=
  (∃ items, v = .sequence items) ∨ ∃ entries, v = .mapping entries

namespace Node

variable (a : Anchors) (depth count : Nat)

theorem toTree_scalar (plain : Bool) (text : List Char) :
    toTree a depth (.scalar {} plain text) count =
      (scalarTree? none plain text).map (·, count) := by
  cases depth <;> rfl

theorem toTree_sequence_zero (items : List Node) :
    toTree a 0 (.sequence {} items) count = none := rfl

theorem toTree_mapping_zero (entries : List (Node × Node)) :
    toTree a 0 (.mapping {} entries) count = none := rfl

theorem toTree_sequence_succ (items : List Node) :
    toTree a (depth + 1) (.sequence {} items) count =
      (items.mapM (toTree a depth) count).map fun r => (.sequence r.1, r.2) := by
  show (items.mapM (toTree a depth) count >>= fun r => some (Tree.sequence r.1, r.2)) = _
  cases items.mapM (toTree a depth) count <;> rfl

def entryTrees (read : List (Tree × Tree)) (entries : List (Node × Node)) :
    Reading (List (Tree × Tree)) :=
  entries.foldlM (fun read e => do
    let key ← toTree a depth e.1
    if Tree.hasKey read key then failure
    else
      let value ← toTree a depth e.2
      pure (read ++ [(key, value)])) read

theorem toTree_mapping_succ (entries : List (Node × Node)) :
    toTree a (depth + 1) (.mapping {} entries) count =
      (entryTrees a depth [] entries count).map fun r => (.mapping r.1, r.2) := by
  show (entryTrees a depth [] entries count >>= fun r => some (Tree.mapping r.1, r.2)) = _
  cases entryTrees a depth [] entries count <;> rfl

end Node

/-- The value of a document that is a collection without anchor and tag is one. -/
theorem isCollection_of_toTree? {d : Document} {v : Tree}
    (h : (∃ items, d.root = some (.sequence {} items)) ∨ ∃ entries,
      d.root = some (.mapping {} entries))
    (hv : d.toTree? = some v) : IsCollection v := by
  rcases h with ⟨items, h⟩ | ⟨entries, h⟩
  · have hrun : (Node.toTree (Anchors.of (.sequence {} items)) depthLimit (.sequence {} items)) 0 =
        _ := Node.toTree_sequence_succ _ 127 0 items
    simp only [Document.toTree?, h, StateT.run, hrun, Option.map_map, Option.map_eq_some_iff] at hv
    obtain ⟨r, -, rfl⟩ := hv
    exact Or.inl ⟨r.1, rfl⟩
  · have hrun : (Node.toTree (Anchors.of (.mapping {} entries)) depthLimit (.mapping {} entries))
        0 =
        _ := Node.toTree_mapping_succ _ 127 0 entries
    simp only [Document.toTree?, h, StateT.run, hrun, Option.map_map, Option.map_eq_some_iff] at hv
    obtain ⟨r, -, rfl⟩ := hv
    exact Or.inr ⟨r.1, rfl⟩

/-- The value of a document that is a scalar. -/
theorem toTree?_scalar (plain : Bool) (text : List Char) :
    Document.toTree? ⟨some (.scalar {} plain text)⟩ = scalarTree? none plain text := by
  have hrun := Node.toTree_scalar (Anchors.of (.scalar {} plain text)) depthLimit 0 plain text
  simp only [Document.toTree?, StateT.run, hrun]
  cases scalarTree? none plain text <;> rfl

/-- The node has this value wherever collections may be that deep, and else none. -/
def Node.Means (n : Node) (v : Tree) : Prop :=
  ∀ a depth count, n.toTree a depth count = if v.depth ≤ depth then some (v, count) else none

theorem Node.means_scalar {plain : Bool} {text : List Char} {v : Tree}
    (h : scalarTree? none plain text = some v) (hv : v.depth = 0) :
    Means (.scalar {} plain text) v := by
  intro a depth count
  rw [toTree_scalar, h, hv]
  simp

/-- Items with values make the sequence of these values. -/
theorem Node.means_sequence {ns : List Node} {vs : List Tree} (h : List.Forall₂ Means ns vs) :
    Means (.sequence {} ns) (.sequence vs) := by
  -- The items are read if the depth is enough for each of them, and they leave the count as it was.
  have hitems (a : Anchors) (depth count : Nat) : (ns.mapM (toTree a depth)) count =
      if Tree.depthOfItems vs ≤ depth then some (vs, count) else none := by
    induction h with
    | nil => rfl
    | @cons n v ns vs hv _ ih =>
      rw [List.mapM_cons]
      show (toTree a depth n count >>= fun r => _) = _
      rw [hv a depth count, Tree.depthOfItems]
      by_cases hd : v.depth ≤ depth
      · rw [if_pos hd]
        show (ns.mapM (toTree a depth) count >>= fun r => _) = _
        rw [ih]
        by_cases hds : Tree.depthOfItems vs ≤ depth
        · rw [if_pos hds, if_pos (Nat.max_le.2 ⟨hd, hds⟩)]
          rfl
        · rw [if_neg hds, if_neg fun hmax => hds (Nat.max_le.1 hmax).2]
          rfl
      · rw [if_neg hd, if_neg fun hmax => hd (Nat.max_le.1 hmax).1]
        rfl
  intro a depth count
  cases depth with
  | zero => rw [toTree_sequence_zero, Tree.depth, if_neg (Nat.not_succ_le_zero _)]
  | succ depth =>
    rw [toTree_sequence_succ, hitems, Tree.depth]
    by_cases hd : Tree.depthOfItems vs ≤ depth
    · rw [if_pos hd, if_pos (Nat.succ_le_succ hd)]
      rfl
    · rw [if_neg hd, if_neg fun hle => hd (Nat.le_of_succ_le_succ hle)]
      rfl

/-- Of entries with different keys none is refused. -/
theorem Node.entryTrees_eq {ns : List (Node × Node)} {es : List (Tree × Tree)}
    (h : List.Forall₂ (fun n e => Means n.1 e.1 ∧ Means n.2 e.2) ns es) (a : Anchors)
    (depth count : Nat) (read : List (Tree × Tree))
    (distinct : (read ++ es).Pairwise fun a b => a.1.same b.1 = false) :
    entryTrees a depth read ns count =
      if Tree.depthOfEntries es ≤ depth then some (read ++ es, count) else none := by
  -- An entry moves from those to come to those that are read, and `distinct` is about both
  -- together.
  induction h generalizing read with
  | nil =>
    rw [List.append_nil]
    rfl
  | @cons n e ns es hv _ ih =>
    obtain ⟨hkey, hvalue⟩ := hv
    have hfresh : Tree.hasKey read e.1 = false := by
      simp only [List.pairwise_append, List.mem_cons] at distinct
      simpa [Tree.hasKey] using fun k v hk => distinct.2.2 (k, v) hk e (Or.inl rfl)
    have hnext := ih (read ++ [e]) (by rwa [List.append_assoc])
    rw [entryTrees, List.foldlM_cons]
    show ((toTree a depth n.1 count >>= fun r => _) >>= fun r => _) = _
    rw [hkey a depth count, Tree.depthOfEntries]
    by_cases hdkey : e.1.depth ≤ depth
    · rw [if_pos hdkey]
      show ((ite (Tree.hasKey read e.1 = true) _ _ : Reading (List (Tree × Tree))) count >>=
        fun r => _) = _
      rw [if_neg (by rw [hfresh]; exact Bool.false_ne_true)]
      show ((toTree a depth n.2 count >>= fun r => _) >>= fun r => _) = _
      rw [hvalue a depth count]
      by_cases hdvalue : e.2.depth ≤ depth
      · rw [if_pos hdvalue]
        show entryTrees a depth (read ++ [e]) ns count = _
        have hmax : max (max e.1.depth e.2.depth) (Tree.depthOfEntries es) ≤ depth ↔
            Tree.depthOfEntries es ≤ depth := by omega
        rw [hnext, List.append_assoc]
        simp only [hmax, List.singleton_append]
      · rw [if_neg hdvalue, if_neg fun hmax => hdvalue (by omega)]
        rfl
    · rw [if_neg hdkey, if_neg fun hmax => hdkey (by omega)]
      rfl

/-- Entries with values make the mapping of these values, if their keys differ. -/
theorem Node.means_mapping {ns : List (Node × Node)} {es : List (Tree × Tree)}
    (h : List.Forall₂ (fun n e => Means n.1 e.1 ∧ Means n.2 e.2) ns es)
    (distinct : es.Pairwise fun a b => a.1.same b.1 = false) :
    Means (.mapping {} ns) (.mapping es) := by
  intro a depth count
  cases depth with
  | zero => rw [toTree_mapping_zero, Tree.depth, if_neg (Nat.not_succ_le_zero _)]
  | succ depth =>
    rw [toTree_mapping_succ, entryTrees_eq h a depth count [] distinct, Tree.depth]
    by_cases hd : Tree.depthOfEntries es ≤ depth
    · rw [if_pos hd, if_pos (Nat.succ_le_succ hd)]
      rfl
    · rw [if_neg hd, if_neg fun hle => hd (Nat.le_of_succ_le_succ hle)]
      rfl

/-- The value of a document is that of its node, unless it lies too deep. -/
theorem Node.Means.toTree? {n : Node} {v : Tree} (h : n.Means v) :
    Document.toTree? ⟨some n⟩ = if v.depth ≤ depthLimit then some v else none := by
  have hrun := h (Anchors.of n) depthLimit 0
  simp only [Document.toTree?, StateT.run, hrun]
  by_cases hd : v.depth ≤ depthLimit
  · rw [if_pos hd, if_pos hd]
    rfl
  · rw [if_neg hd, if_neg hd]
    rfl

end Yaml

end Workflow
