import Mathlib
/-!
# Ring buffers

A buffer of `size` slots is written at the slots `0, 1, …, size - 1, 0, 1, …` in turn. After the writes of `log` it
holds the last `size` of them: those of the lap in progress first, then what is left of the lap before (`ring`,
`filterMap_ring`). A scan of the slots in their order meets the writes in their order only within one lap.
-/

namespace Lib

variable {α : Type}

/-- The last `size` writes, the oldest first; slots that have not been written are `none`. -/
def window (size : Nat) (log : List α) : List (Option α) :=
  (List.replicate size none ++ log.map some).drop log.length

/-- The slots after the writes of `log`. -/
def ring (size : Nat) (log : List α) : List (Option α) :=
  (window size log).drop (size - log.length % size) ++ (window size log).take (size - log.length % size)

@[simp] theorem length_window (size : Nat) (log : List α) : (window size log).length = size := by
  simp [window]

theorem window_concat {size : Nat} (hsize : 0 < size) (log : List α) (x : α) :
    window size (log ++ [x]) = (window size log).tail ++ [some x] := by
  rw [window, window, List.tail_drop, List.map_append, ← List.append_assoc, List.length_append, List.length_singleton,
    List.drop_append_of_le_length (by simp; omega)]
  rfl

theorem ring_nil (size : Nat) : ring size ([] : List α) = List.replicate size none := by
  simp [ring, window]

/-- **A write** goes to the next slot. -/
theorem ring_concat {size : Nat} (hsize : 0 < size) (log : List α) (x : α) :
    ring size (log ++ [x]) = (ring size log).set (log.length % size) (some x) := by
  obtain ⟨w₀, w, hw⟩ := List.exists_cons_of_length_pos (by simpa using hsize : 0 < (window size log).length)
  have hlen : w.length + 1 = size := by
    rw [← length_window size log, hw, List.length_cons]
  have hm := Nat.mod_lt log.length hsize
  -- the slot that is written is the one of the oldest write, `w₀`
  have hslots : (ring size log).set (log.length % size) (some x) =
      w.drop (size - log.length % size - 1) ++ some x :: w.take (size - log.length % size - 1) := by
    rw [ring, hw, show size - log.length % size = (size - log.length % size - 1) + 1 by omega, List.drop_succ_cons,
      List.take_succ_cons, List.set_append_right _ _ (by simp; omega)]
    rw [show log.length % size - (w.drop (size - log.length % size - 1)).length = 0 by
      rw [List.length_drop]
      omega]
    rfl
  rw [hslots, ring, window_concat hsize, hw, List.tail_cons, List.length_append, List.length_singleton,
    ← Nat.mod_add_mod]
  by_cases hlap : log.length % size + 1 = size
  · -- the lap is full, and the next write starts another
    rw [hlap, Nat.mod_self, Nat.sub_zero, List.drop_of_length_le (by simp; omega), List.take_of_length_le (by simp; omega),
      show size - log.length % size - 1 = 0 by omega]
    simp
  · rw [Nat.mod_eq_of_lt (by omega), show size - (log.length % size + 1) = size - log.length % size - 1 by omega,
      List.drop_append_of_le_length (by omega), List.take_append_of_le_length (by omega), List.append_assoc]
    rfl

theorem filterMap_drop_padded (size c : Nat) (l : List α) :
    ((List.replicate size none ++ l.map some).drop c).filterMap id = l.drop (c - size) := by
  rw [List.drop_append, List.filterMap_append, List.drop_replicate, List.length_replicate, ← List.map_drop,
    List.filterMap_map]
  have hunwritten : (List.replicate (size - c) (none : Option α)).filterMap id = [] :=
    List.filterMap_eq_nil_iff.2 fun o ho => List.eq_of_mem_replicate ho
  rw [hunwritten, List.nil_append]
  exact List.filterMap_some

theorem filterMap_ring_mod {size : Nat} (hsize : 0 < size) (log : List α) :
    (ring size log).filterMap id = log.drop (log.length - log.length % size) ++
      (log.take (log.length - log.length % size)).drop (log.length - size) := by
  have hmod := Nat.mod_le log.length size
  have hlt := Nat.mod_lt log.length hsize
  have hcut : log.length + (size - log.length % size) - size = log.length - log.length % size := by omega
  have htake : (List.replicate size none ++ log.map some).take (log.length + (size - log.length % size)) =
      List.replicate size none ++ (log.take (log.length - log.length % size)).map some := by
    rw [List.take_append, List.length_replicate, hcut, List.take_of_length_le (by simp; omega), List.map_take]
  rw [ring, window, List.filterMap_append, List.drop_drop, List.take_drop, htake, filterMap_drop_padded,
    filterMap_drop_padded, hcut]

/-- The lap of the last write starts where the lap in progress does, or one lap before if that one is empty. -/
theorem lap_eq {size c : Nat} (hsize : 0 < size) (hc : 0 < c) :
    size * ((c - 1) / size) = if c % size = 0 then c - size else c - c % size := by
  have hsplit := Nat.div_add_mod c size
  have hlt := Nat.mod_lt c hsize
  split_ifs with hfull
  · obtain ⟨k, hk⟩ : ∃ k, c / size = k + 1 := Nat.exists_eq_succ_of_ne_zero fun h0 => by
      rw [h0, hfull] at hsplit
      omega
    rw [hk, hfull, Nat.mul_succ] at hsplit
    rw [show c - 1 = size * k + (size - 1) by omega, Nat.mul_add_div hsize,
      Nat.div_eq_of_lt (show size - 1 < size by omega), Nat.add_zero]
    omega
  · rw [show c - 1 = size * (c / size) + (c % size - 1) by omega, Nat.mul_add_div hsize,
      Nat.div_eq_of_lt (show c % size - 1 < size by omega), Nat.add_zero]
    omega

/-- **What the slots hold in their order**: the writes of the lap of the last one, then those of the lap before that
have not been overwritten. -/
theorem filterMap_ring {size : Nat} (hsize : 0 < size) {log : List α} (hlog : log ≠ []) :
    (ring size log).filterMap id = log.drop (size * ((log.length - 1) / size)) ++
      (log.take (size * ((log.length - 1) / size))).drop (log.length - size) := by
  rw [filterMap_ring_mod hsize, lap_eq hsize (List.length_pos_iff.2 hlog)]
  split_ifs with hfull
  · have hnone : (log.take (log.length - size)).drop (log.length - size) = [] :=
      List.drop_of_length_le (List.length_take_le _ _)
    rw [hfull, Nat.sub_zero, List.drop_length, List.take_length, hnone, List.nil_append, List.append_nil]
  · rfl

end Lib
