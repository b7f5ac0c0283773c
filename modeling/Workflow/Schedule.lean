namespace Workflow

/-- An order in which tasks that run side by side end. -/
structure Schedule where
  /-- At which place the first of `n + 1` tasks ends among the others. -/
  place : (n : Nat) → Fin (n + 1)

namespace Schedule

def asStarted : Schedule :=
  ⟨fun _ => 0⟩

/-- The results of tasks in the order in which they end, from the order in which they were
started. -/
def order {α : Type} (s : Schedule) : List α → List α
  | [] => []
  | x :: xs => (s.order xs).insertIdx (s.place xs.length) x

theorem perm_order {α : Type} (s : Schedule) (xs : List α) : (s.order xs).Perm xs := by
  induction xs with
  | nil => exact .nil
  | cons x xs ih =>
    have h : (s.place xs.length).val ≤ (s.order xs).length := by
      rw [ih.length_eq]
      exact Nat.le_of_lt_succ (s.place xs.length).isLt
    exact (List.perm_insertIdx x (s.order xs) h).trans (ih.cons x)

theorem order_asStarted {α : Type} (xs : List α) : asStarted.order xs = xs := by
  induction xs with
  | nil => rfl
  | cons x xs ih => simpa [order, asStarted] using ih

/-- Only the places among fewer tasks count. -/
theorem order_congr {α : Type} {s t : Schedule} (xs : List α)
    (h : ∀ n < xs.length, s.place n = t.place n) : s.order xs = t.order xs := by
  induction xs with
  | nil => rfl
  | cons x xs ih =>
    have hx := h xs.length (by simp)
    have hr := ih fun n hn => h n (by simp; omega)
    simp [order, hx, hr]

theorem insertIdx_length {α : Type} (as bs : List α) (x : α) :
    (as ++ bs).insertIdx as.length x = as ++ x :: bs := by
  induction as with
  | nil => simp
  | cons a as ih => simpa using ih

/-- Every order in which tasks can end has a schedule. -/
theorem exists_order_eq {α : Type} (xs : List α) :
    ∀ ys : List α, ys.Perm xs → ∃ s : Schedule, s.order xs = ys := by
  induction xs with
  | nil =>
    intro ys h
    exact ⟨asStarted, by simp [order, h.eq_nil]⟩
  | cons x xs ih =>
    intro ys h
    obtain ⟨as, bs, rfl⟩ := List.append_of_mem (h.mem_iff.mpr List.mem_cons_self)
    have hp : (as ++ bs).Perm xs := (List.perm_middle.symm.trans h).cons_inv
    obtain ⟨s, hs⟩ := ih (as ++ bs) hp
    have hlen : as.length < xs.length + 1 := by
      have := hp.length_eq
      simp at this
      omega
    -- The first task ends after those in `as`; the others keep their places.
    let t : Schedule := ⟨fun n => if hn : n = xs.length then ⟨as.length, by omega⟩ else s.place n⟩
    refine ⟨t, ?_⟩
    have ht : t.order xs = as ++ bs := by
      rw [← hs]
      exact order_congr xs fun n hn => by simp [t, Nat.ne_of_lt hn]
    simpa [order, ht, t] using insertIdx_length as bs x

end Schedule

end Workflow
