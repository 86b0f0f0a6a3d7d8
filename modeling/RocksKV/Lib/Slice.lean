import Mathlib.Data.List.Basic
/-!
# Slices

A slice is a window on an array: its elements are the first `len` cells, and there may be cells behind them up to the
end of the array. Cutting a slice keeps the array; appending writes into the cells behind the elements, whatever stands
there, and moves to a new array when there are too few. What a sequence of such edits does is said of the elements alone
(`view`), provided that no other slice on the array is read afterwards.

`grow` stands for the allocator: from the old capacity and the new elements it makes the spare cells of a new array. The
elements that are appended are read before any cell is written, so they may come from the same array.
-/

namespace Lib

/-- The cells from the slice's start to the end of its array. -/
structure Slice (α : Type) where
  cells : List α
  len   : Nat
  le    : len ≤ cells.length

namespace Slice

variable {α : Type} (grow : Nat → List α → List α)

/-- A new array that is full. -/
def ofList (xs : List α) : Slice α := ⟨xs, xs.length, Nat.le_refl _⟩

def view (s : Slice α) : List α := s.cells.take s.len

/-- `s[:i]`, for an index in range. -/
def upTo (s : Slice α) (i : Nat) : Slice α := ⟨s.cells, min i s.len, Nat.le_trans (Nat.min_le_right _ _) s.le⟩

/-- `s[i:]`, for an index in range. -/
def after (s : Slice α) (i : Nat) : Slice α :=
  ⟨s.cells.drop i, s.len - i, by
    rw [List.length_drop]
    exact Nat.sub_le_sub_right s.le i⟩

/-- `append(s, xs...)`. -/
def append (s : Slice α) (xs : List α) : Slice α :=
  if h : s.len + xs.length ≤ s.cells.length then
    ⟨s.cells.take s.len ++ (xs ++ s.cells.drop (s.len + xs.length)), s.len + xs.length, by
      simp only [List.length_append, List.length_take, List.length_drop]
      omega⟩
  else
    ⟨s.cells.take s.len ++ (xs ++ grow s.cells.length (s.cells.take s.len ++ xs)), s.len + xs.length, by
      have hle := s.le
      simp only [List.length_append, List.length_take]
      omega⟩

/-- `append(s[:i], append([]T{x}, s[i:]...)...)`. -/
def insertAt (s : Slice α) (i : Nat) (x : α) : Slice α :=
  (s.upTo i).append grow ((ofList [x]).append grow (s.after i).view).view

/-- `append(s[:i], s[i+1:]...)`. -/
def removeAt (s : Slice α) (i : Nat) : Slice α := (s.upTo i).append grow (s.after (i + 1)).view

@[simp] theorem view_ofList (xs : List α) : (ofList xs).view = xs := List.take_length

theorem length_view (s : Slice α) : s.view.length = s.len := by
  rw [view, List.length_take, Nat.min_eq_left s.le]

theorem view_upTo (s : Slice α) (i : Nat) : (s.upTo i).view = s.view.take i := by
  rw [view, view, List.take_take]
  rfl

theorem view_after (s : Slice α) (i : Nat) : (s.after i).view = s.view.drop i := List.drop_take.symm

/-- **Appending** writes behind the elements, in either array. -/
theorem view_append (s : Slice α) (xs : List α) : (s.append grow xs).view = s.view ++ xs := by
  have hlen : (s.cells.take s.len ++ xs).length = s.len + xs.length := by
    rw [List.length_append, List.length_take, Nat.min_eq_left s.le]
  have hcut : ∀ spare, (s.cells.take s.len ++ (xs ++ spare)).take (s.len + xs.length) = s.view ++ xs := by
    intro spare
    rw [← List.append_assoc, ← hlen]
    exact List.take_left
  unfold append
  split
  · exact hcut _
  · exact hcut _

theorem view_insertAt (s : Slice α) (i : Nat) (x : α) :
    (s.insertAt grow i x).view = s.view.take i ++ x :: s.view.drop i := by
  rw [insertAt, view_append, view_append, view_upTo, view_after, view_ofList]
  rfl

theorem view_removeAt (s : Slice α) (i : Nat) : (s.removeAt grow i).view = s.view.eraseIdx i := by
  rw [removeAt, view_append, view_upTo, view_after, List.eraseIdx_eq_take_drop_succ]

end Slice

end Lib
