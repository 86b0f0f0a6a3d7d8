import Mathlib
/-!
# Points on a circle

`clockwise place x l` reads the points of `l` from `x` onwards and around: those at or after `x`, then those before it.
For a list sorted by place it is a rotation (`clockwise_eq_rotate`). `firstTwo d l` is the first element of a list and
the first after it that differs, `d` standing for what is not there. An element put into a list or taken out of it takes
a place among the first two or leaves one; it does not make others change places (`firstTwo_filter`, `filter_firstTwo`,
and for any number of elements taken out `fst_firstTwo_of_filter`).
-/

namespace Lib

section
variable {α β : Type} [LinearOrder β] {place : α → β} {x : β} {l : List α}

def clockwise (place : α → β) (x : β) (l : List α) : List α :=
  l.filter (fun a => decide (x ≤ place a)) ++ l.filter fun a => !decide (x ≤ place a)

theorem mem_clockwise {a : α} : a ∈ clockwise place x l ↔ a ∈ l := by
  simp only [clockwise, List.mem_append, List.mem_filter]
  by_cases h : x ≤ place a <;> simp [h]

theorem filter_clockwise (p : α → Bool) : (clockwise place x l).filter p = clockwise place x (l.filter p) := by
  simp only [clockwise, List.filter_append, List.filter_filter, Bool.and_comm]

/-- In a sorted list the points at or after `x` are a suffix. -/
theorem cut_findIdx (h : l.Pairwise (place · ≤ place ·)) :
    l.drop (l.findIdx fun a => decide (x ≤ place a)) = l.filter (fun a => decide (x ≤ place a)) ∧
      l.take (l.findIdx fun a => decide (x ≤ place a)) = l.filter fun a => !decide (x ≤ place a) := by
  induction l with
  | nil => simp
  | cons a l ih =>
    obtain ⟨hle, hl⟩ := List.pairwise_cons.1 h
    obtain ⟨hdrop, htake⟩ := ih hl
    by_cases ha : x ≤ place a
    · have hall : ∀ b ∈ l, x ≤ place b := fun b hb => le_trans ha (hle b hb)
      have hkeep : l.filter (fun a => decide (x ≤ place a)) = l := List.filter_eq_self.2 (by simpa using hall)
      have hnone : l.filter (fun a => !decide (x ≤ place a)) = [] := List.filter_eq_nil_iff.2 (by simpa using hall)
      simp only [List.findIdx_cons, ha, decide_true, cond_true, List.drop_zero, List.take_zero, List.filter_cons,
        hkeep, hnone, if_true]
      simp
    · simp [List.findIdx_cons, ha, hdrop, htake]

theorem clockwise_eq_rotate (h : l.Pairwise (place · ≤ place ·)) :
    clockwise place x l = l.rotate (l.findIdx fun a => decide (x ≤ place a)) := by
  obtain ⟨hdrop, htake⟩ := cut_findIdx (x := x) h
  rw [List.rotate_eq_drop_append_take List.findIdx_le_length, hdrop, htake]
  rfl

end

section
variable {α : Type}

/-- What a search finds, it finds as well among the elements that pass a filter, if that one does. -/
theorem find?_filter_of_some {p q : α → Bool} {l : List α} {b : α} (h : l.find? q = some b) (hb : p b = true) :
    (l.filter p).find? q = some b := by
  obtain ⟨hq, front, rest, rfl, hfront⟩ := List.find?_eq_some_iff_append.1 h
  rw [List.find?_filter]
  refine List.find?_eq_some_iff_append.2 ⟨by simp [hb, hq], front, rest, rfl, fun a ha => ?_⟩
  have := hfront a ha
  simp_all

theorem find?_filter_of_none {p q : α → Bool} {l : List α} (h : l.find? q = none) : (l.filter p).find? q = none := by
  rw [List.find?_eq_none] at h ⊢
  exact fun a ha => h a (List.mem_of_mem_filter ha)

variable [DecidableEq α] {d : α}

def firstTwo (d : α) : List α → α × α
  | [] => (d, d)
  | a :: l => (a, (l.find? fun b => decide (b ≠ a)).getD d)

theorem fst_firstTwo_filter (p : α → Bool) (l : List α) : (firstTwo d (l.filter p)).1 = (l.find? p).getD d := by
  rw [← List.head?_filter]
  cases l.filter p <;> rfl

/-- **One element more**: it is among the first two, with the old first beside it, or they are the old ones. -/
theorem firstTwo_filter (n : α) (l : List α) :
    firstTwo d l = firstTwo d (l.filter fun a => decide (a ≠ n)) ∨
    firstTwo d l = (n, (firstTwo d (l.filter fun a => decide (a ≠ n))).1) ∨
    firstTwo d l = ((firstTwo d (l.filter fun a => decide (a ≠ n))).1, n) := by
  cases l with
  | nil => exact .inl rfl
  | cons a l =>
    by_cases ha : a = n
    · subst ha
      refine .inr (.inl ?_)
      rw [fst_firstTwo_filter]
      simp [firstTwo]
    · have hcons : (a :: l).filter (fun b => decide (b ≠ n)) = a :: l.filter fun b => decide (b ≠ n) := by simp [ha]
      rw [hcons]
      cases hf : l.find? fun b => decide (b ≠ a) with
      | none =>
        left
        simp only [firstTwo, hf, find?_filter_of_none hf]
      | some b =>
        by_cases hb : b = n
        · subst hb
          right; right
          simp only [firstTwo, hf, Option.getD_some]
        · left
          have hkeep := find?_filter_of_some (p := fun b => decide (b ≠ n)) hf (by simpa using hb)
          simp only [firstTwo, hf, hkeep]

/-- **One element less**: where it was not among the first two they stay; else the other one comes first. -/
theorem filter_firstTwo (n : α) (l : List α) :
    ((firstTwo d l).1 ≠ n → (firstTwo d l).2 ≠ n → firstTwo d (l.filter fun a => decide (a ≠ n)) = firstTwo d l) ∧
    ((firstTwo d l).1 = n → (firstTwo d (l.filter fun a => decide (a ≠ n))).1 = (firstTwo d l).2) ∧
    ((firstTwo d l).1 ≠ n → (firstTwo d (l.filter fun a => decide (a ≠ n))).1 = (firstTwo d l).1) := by
  cases l with
  | nil => simp [firstTwo]
  | cons a l =>
    refine ⟨fun h1 h2 => ?_, fun h => ?_, fun h => ?_⟩
    · have ha : a ≠ n := h1
      have hcons : (a :: l).filter (fun b => decide (b ≠ n)) = a :: l.filter fun b => decide (b ≠ n) := by simp [ha]
      rw [hcons]
      cases hf : l.find? fun b => decide (b ≠ a) with
      | none => simp only [firstTwo, hf, find?_filter_of_none hf]
      | some b =>
        have hb : b ≠ n := by
          simp only [firstTwo, hf, Option.getD_some] at h2
          exact h2
        have hkeep := find?_filter_of_some (p := fun b => decide (b ≠ n)) hf (by simpa using hb)
        simp only [firstTwo, hf, hkeep]
    · obtain rfl : a = n := h
      rw [fst_firstTwo_filter]
      simp [firstTwo]
    · have ha : a ≠ n := h
      simp [firstTwo, ha]

/-- **Fewer elements**: the first that is left is the old first, or else the old second, if one of them is left. -/
theorem fst_firstTwo_of_filter (p : α → Bool) {l : List α} :
    ((firstTwo d l).1 ∈ l → p (firstTwo d l).1 = true → (firstTwo d (l.filter p)).1 = (firstTwo d l).1) ∧
    ((firstTwo d l).2 ∈ l → p (firstTwo d l).1 = false → p (firstTwo d l).2 = true →
      (firstTwo d (l.filter p)).1 = (firstTwo d l).2) := by
  cases l with
  | nil => simp
  | cons a l =>
    rw [fst_firstTwo_filter]
    refine ⟨fun _ (ha : p a = true) => by simp [firstTwo, ha], fun hmem (ha : p a = false) hsnd => ?_⟩
    cases hf : l.find? fun b => decide (b ≠ a) with
    | none =>
      -- all are the first, which is not left
      have hall : ∀ b ∈ a :: l, b = a := by simpa [List.find?_eq_none] using hf
      rw [hall _ hmem, ha] at hsnd
      cases hsnd
    | some b =>
      obtain ⟨-, front, rest, rfl, hfront⟩ := List.find?_eq_some_iff_append.1 hf
      have hskip : ∀ c ∈ front, p c = false := fun c hc => by
        have hca : c = a := by simpa using hfront c hc
        rw [hca, ha]
      simp only [firstTwo, hf, Option.getD_some] at hsnd ⊢
      simp [ha, List.find?_append, List.find?_eq_none.2 (by simpa using hskip), hsnd]

/-- The second differs from the first if any element does, and is one of them. -/
theorem snd_firstTwo {l : List α} {b : α} (hb : b ∈ l) (hne : b ≠ (firstTwo d l).1) :
    (firstTwo d l).2 ∈ l ∧ (firstTwo d l).2 ≠ (firstTwo d l).1 := by
  cases l with
  | nil => simp at hb
  | cons a l =>
    have hba : b ≠ a := hne
    have hbl : b ∈ l := (List.mem_cons.1 hb).resolve_left hba
    cases hf : l.find? fun b => decide (b ≠ a) with
    | none =>
      rw [List.find?_eq_none] at hf
      exact absurd (hf b hbl) (by simpa using hba)
    | some c =>
      have hc := List.find?_some hf
      simp only [firstTwo, hf, Option.getD_some]
      exact ⟨List.mem_cons_of_mem _ (List.mem_of_find?_eq_some hf), by simpa using hc⟩

theorem fst_firstTwo {l : List α} (h : l ≠ []) : (firstTwo d l).1 ∈ l := by
  cases l with
  | nil => exact absurd rfl h
  | cons a l => exact List.mem_cons_self

/-- Where no element differs from the first, there is no second. -/
theorem snd_firstTwo_eq {l : List α} (h : ∀ b ∈ l, b = (firstTwo d l).1) : (firstTwo d l).2 = d := by
  cases l with
  | nil => rfl
  | cons a l =>
    have hf : (l.find? fun b => decide (b ≠ a)) = none := by
      rw [List.find?_eq_none]
      intro b hb
      simpa [firstTwo] using h b (List.mem_cons_of_mem _ hb)
    simp only [firstTwo, hf, Option.getD_none]

end

/-- Walking `idx + 1, idx + 2, …` modulo the length reads a rotated list without its head. -/
theorem map_walk {α γ : Type} (l : List α) (g : α → γ) (f : Nat → γ) (h : ∀ i (hi : i < l.length), f i = g l[i])
    {idx : Nat} (hidx : idx < l.length) :
    (l.rotate idx).map g =
      f idx :: (List.range' 1 (l.length - 1)).map fun i => f ((idx + i) % l.length) := by
  apply List.ext_getElem
  · simp only [List.length_map, List.length_rotate, List.length_cons, List.length_range']
    omega
  · intro i h1 h2
    have hpos : 0 < l.length := by omega
    rw [List.getElem_map, List.getElem_rotate]
    cases i with
    | zero => simp [h idx hidx, Nat.mod_eq_of_lt hidx]
    | succ i =>
      rw [List.getElem_cons_succ, List.getElem_map, List.getElem_range', h _ (Nat.mod_lt _ hpos)]
      congr 2
      rw [show i + 1 + idx = idx + (1 + 1 * i) by omega]

end Lib
