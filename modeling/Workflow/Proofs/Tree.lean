import Workflow.Tree
/-!
Equality of value trees can be decided, so that what is read from a text can be computed and
compared. It is finer than equality as keys: the order of entries counts, and so does the sign of a
zero.
-/

namespace Workflow

instance decEqExcept {ε α : Type} [DecidableEq ε] [DecidableEq α] : DecidableEq (Except ε α)
  | .ok a, .ok b => decidable_of_iff (a = b) (by simp)
  | .error a, .error b => decidable_of_iff (a = b) (by simp)
  | .ok _, .error _ => isFalse (by simp)
  | .error _, .ok _ => isFalse (by simp)

deriving instance DecidableEq for Number

namespace Tree

mutual

def isEqual : Tree → Tree → Bool
  | null, null => true
  | bool a, bool b => a == b
  | number a, number b => a == b
  | string a, string b => a == b
  | sequence xs, sequence ys => areEqual xs ys
  | mapping xs, mapping ys => entriesEqual xs ys
  | tagged s x, tagged t y => s == t && isEqual x y
  | _, _ => false

def areEqual : List Tree → List Tree → Bool
  | [], [] => true
  | x :: xs, y :: ys => isEqual x y && areEqual xs ys
  | _, _ => false

def entriesEqual : List (Tree × Tree) → List (Tree × Tree) → Bool
  | [], [] => true
  | (k, v) :: xs, (l, w) :: ys => isEqual k l && isEqual v w && entriesEqual xs ys
  | _, _ => false

end

mutual

theorem isEqual_iff : ∀ a b : Tree, isEqual a b = true ↔ a = b
  | null, b => by cases b <;> simp [isEqual]
  | bool x, b => by cases b <;> simp [isEqual]
  | number x, b => by cases b <;> simp [isEqual]
  | string x, b => by cases b <;> simp [isEqual]
  | sequence xs, b => by
    cases b with
    | sequence ys => simp [isEqual, areEqual_iff xs ys]
    | _ => simp [isEqual]
  | mapping xs, b => by
    cases b with
    | mapping ys => simp [isEqual, entriesEqual_iff xs ys]
    | _ => simp [isEqual]
  | tagged s x, b => by
    cases b with
    | tagged t y => simp [isEqual, isEqual_iff x y]
    | _ => simp [isEqual]

theorem areEqual_iff : ∀ xs ys : List Tree, areEqual xs ys = true ↔ xs = ys
  | [], ys => by cases ys <;> simp [areEqual]
  | x :: xs, ys => by
    cases ys with
    | nil => simp [areEqual]
    | cons y ys => simp [areEqual, isEqual_iff x y, areEqual_iff xs ys]

theorem entriesEqual_iff : ∀ xs ys : List (Tree × Tree), entriesEqual xs ys = true ↔ xs = ys
  | [], ys => by cases ys <;> simp [entriesEqual]
  | (k, v) :: xs, ys => by
    cases ys with
    | nil => simp [entriesEqual]
    | cons e ys =>
      simp [entriesEqual, isEqual_iff k e.1, isEqual_iff v e.2, entriesEqual_iff xs ys,
        Prod.ext_iff]

end

instance : DecidableEq Tree := fun a b =>
  decidable_of_iff _ (isEqual_iff a b)

end Tree

end Workflow
