import RocksKV.Lib.Bytes
/-!
# Streams of frames

A `Codec` is a reader together with the encoder it inverts. A file of frames is read until the reader
fails: `frames b` is what such a scan returns. Cutting a stream at any byte leaves whole frames and a torn
one that does not decode (`exists_cut`).
-/

namespace Lib

structure Codec (α : Type) where
  read     : Reader α
  enc      : α → Bytes
  /-- The values the encoder is meant for. -/
  Ok       : α → Prop
  read_enc : ∀ {x}, Ok x → ∀ r, read (enc x ++ r) = some (x, r)
  stable   : Reader.Stable read
  takes    : Reader.Takes 1 read

namespace Codec

variable {α : Type} (c : Codec α)

/-- The frames of `xs`, one after another. -/
def flat (xs : List α) : Bytes := xs.flatMap c.enc

/-- Read until the first failure, at most `fuel` frames. -/
def scan : Nat → Bytes → List α
  | 0, _ => []
  | fuel + 1, b =>
    match c.read b with
    | none => []
    | some (x, rest) => x :: scan fuel rest

/-- Every frame that can be read from the front of `b`. -/
def frames (b : Bytes) : List α := c.scan b.length b

/-- `b` is the frames of `xs` and then bytes that do not decode. -/
def Holds (b : Bytes) (xs : List α) : Prop := ∃ torn, b = c.flat xs ++ torn ∧ c.read torn = none

@[simp] theorem flat_nil : c.flat [] = [] := rfl

@[simp] theorem flat_cons (x : α) (xs : List α) : c.flat (x :: xs) = c.enc x ++ c.flat xs := rfl

@[simp] theorem flat_append (xs ys : List α) : c.flat (xs ++ ys) = c.flat xs ++ c.flat ys := by
  simp [flat]

theorem read_nil : c.read [] = none := by
  cases h : c.read [] with
  | none => rfl
  | some q =>
    obtain ⟨x, rest⟩ := q
    have := c.takes _ _ _ h
    simp at this

theorem scan_of_le {fuel : Nat} {b : Bytes} (h : b.length ≤ fuel) : c.scan fuel b = c.frames b := by
  have key : ∀ {n m : Nat} {b : Bytes}, b.length ≤ n → b.length ≤ m → c.scan n b = c.scan m b := by
    intro n
    induction n with
    | zero =>
      intro m b hn hm
      obtain rfl : b = [] := by simpa using hn
      cases m <;> simp [scan, read_nil]
    | succ n ih =>
      intro m b hn hm
      cases m with
      | zero =>
        obtain rfl : b = [] := by simpa using hm
        simp [scan, read_nil]
      | succ m =>
        simp only [scan]
        cases h : c.read b with
        | none => rfl
        | some q =>
          have := c.takes _ _ _ h
          exact congrArg (q.1 :: ·) (ih (by omega) (by omega))
  exact key h le_rfl

theorem frames_of_none {b : Bytes} (h : c.read b = none) : c.frames b = [] := by
  unfold frames
  cases b.length with
  | zero => rfl
  | succ n => simp [scan, h]

theorem frames_of_some {b rest : Bytes} {x : α} (h : c.read b = some (x, rest)) :
    c.frames b = x :: c.frames rest := by
  have hl := c.takes _ _ _ h
  rw [frames, show b.length = b.length - 1 + 1 by omega]
  simp only [scan, h]
  rw [c.scan_of_le (by omega)]

theorem frames_flat_append : ∀ {xs : List α}, (∀ x ∈ xs, c.Ok x) → ∀ b,
    c.frames (c.flat xs ++ b) = xs ++ c.frames b
  | [], _, _ => rfl
  | x :: xs, h, b => by
    rw [flat_cons, List.append_assoc, c.frames_of_some (c.read_enc (h x List.mem_cons_self) _),
      frames_flat_append (fun y hy => h y (List.mem_cons_of_mem _ hy)) b]
    rfl

variable {c}

theorem Holds.frames {b : Bytes} {xs : List α} (h : c.Holds b xs) (hok : ∀ x ∈ xs, c.Ok x) : c.frames b = xs := by
  obtain ⟨torn, rfl, ht⟩ := h
  rw [c.frames_flat_append hok, c.frames_of_none ht, List.append_nil]

theorem holds_flat (xs : List α) : c.Holds (c.flat xs) xs := ⟨[], by simp, c.read_nil⟩

/-- **A cut stream** is whole frames and a torn one, and loses no frame that ends before the cut. -/
theorem exists_cut : ∀ {xs : List α}, (∀ x ∈ xs, c.Ok x) → ∀ m : Nat,
    ∃ k ≤ xs.length, c.Holds ((c.flat xs).take m) (xs.take k) ∧
      ∀ j ≤ xs.length, (c.flat (xs.take j)).length ≤ m → j ≤ k
  | [], _, m => ⟨0, le_rfl, by simpa using holds_flat [], fun j hj _ => by simpa using hj⟩
  | x :: xs, h, m => by
    have hx := h x List.mem_cons_self
    by_cases hm : (c.enc x).length ≤ m
    · obtain ⟨k, hk, ⟨torn, he, ht⟩, hmax⟩ :=
        exists_cut (fun y hy => h y (List.mem_cons_of_mem _ hy)) (m - (c.enc x).length)
      refine ⟨k + 1, by simpa using hk, ⟨torn, ?_, ht⟩, fun j hj hlen => ?_⟩
      · rw [flat_cons, List.take_append, List.take_of_length_le hm, he, List.take_succ_cons, flat_cons,
          List.append_assoc]
      · cases j with
        | zero => omega
        | succ j =>
          simp only [List.take_succ_cons, flat_cons, List.length_append] at hlen
          have := hmax j (by simpa using hj) (by omega)
          omega
    · refine ⟨0, Nat.zero_le _, ⟨(c.enc x).take m, ?_, ?_⟩, fun j hj hlen => ?_⟩
      · rw [flat_cons, List.take_append_of_le_length (by omega)]
        rfl
      · exact c.stable.short (by simpa using c.read_enc hx []) (by omega)
      · cases j with
        | zero => omega
        | succ j =>
          simp only [List.take_succ_cons, flat_cons, List.length_append] at hlen
          omega

/-- Reading at the offset of a frame returns it. -/
theorem drop_flat (xs ys : List α) (b : Bytes) :
    (c.flat (xs ++ ys) ++ b).drop (c.flat xs).length = c.flat ys ++ b := by
  rw [flat_append, List.append_assoc, List.drop_left]

/-! ## Altered streams -/

/-- What is read is what stands in front. -/
def Exact (c : Codec α) : Prop := ∀ {b x rest}, c.read b = some (x, rest) → b = c.enc x ++ rest

/-- Every byte string is the frames that can be read from it and something that does not decode. -/
theorem Exact.holds_frames (h : c.Exact) : ∀ b, c.Holds b (c.frames b) := by
  intro b
  induction hn : b.length using Nat.strong_induction_on generalizing b with
  | _ n ih =>
    cases hr : c.read b with
    | none =>
      rw [c.frames_of_none hr]
      exact ⟨b, rfl, hr⟩
    | some q =>
      obtain ⟨x, rest⟩ := q
      have hlt := c.takes _ _ _ hr
      obtain ⟨torn, hrest, ht⟩ := ih rest.length (by omega) rest rfl
      rw [c.frames_of_some hr]
      exact ⟨torn, by rw [h hr, flat_cons, List.append_assoc, ← hrest], ht⟩

/-- Where a frame of `xs` started, `b` has this frame or nothing that decodes; after the last one it has nothing. -/
def Detects (c : Codec α) (xs : List α) (b : Bytes) : Prop :=
  ∀ i x rest, c.read (b.drop (c.flat (xs.take i)).length) = some (x, rest) → xs[i]? = some x

/-- To check it, the places after the last frame need not be told apart. -/
theorem detects_iff {xs : List α} {b : Bytes} : c.Detects xs b ↔ ∀ i < xs.length + 1, ∀ q,
    c.read (b.drop (c.flat (xs.take i)).length) = some q → xs[i]? = some q.1 := by
  constructor
  · intro h i _ q hq
    exact h i q.1 q.2 hq
  · intro h i x rest hr
    rcases Nat.lt_or_ge i (xs.length + 1) with hi | hi
    · exact h i hi (x, rest) hr
    · rw [List.take_of_length_le (by omega)] at hr
      have hend := h xs.length (by omega) (x, rest) (by rwa [List.take_length])
      rw [List.getElem?_eq_none le_rfl] at hend
      cases hend

instance [DecidableEq α] (xs : List α) (b : Bytes) : Decidable (c.Detects xs b) :=
  decidable_of_iff (∀ i < xs.length + 1,
      (c.read (b.drop (c.flat (xs.take i)).length)).all (fun q => decide (xs[i]? = some q.1)) = true) (by
    rw [detects_iff]
    simp only [Option.all_eq_true, decide_eq_true_eq])

/-- **Reading an altered stream** at the start of a frame returns frames from there on, up to some place. -/
theorem Detects.frames_drop (h : c.Exact) {xs : List α} {b : Bytes} (hd : c.Detects xs b) : ∀ {n j : Nat},
    xs.length - j = n → ∃ k, c.frames (b.drop (c.flat (xs.take j)).length) = (xs.drop j).take k
  | n, j, hn => by
    cases hr : c.read (b.drop (c.flat (xs.take j)).length) with
    | none => exact ⟨0, by rw [c.frames_of_none hr, List.take_zero]⟩
    | some q =>
      obtain ⟨x, rest⟩ := q
      have hx := hd j x rest hr
      obtain ⟨hj, rfl⟩ := List.getElem?_eq_some_iff.1 hx
      have hnext : b.drop (c.flat (xs.take (j + 1))).length = rest := by
        have hlen : (c.flat (xs.take (j + 1))).length = (c.flat (xs.take j)).length + (c.enc xs[j]).length := by
          rw [← List.take_append_getElem hj, flat_append, List.length_append]
          simp
        rw [hlen, ← List.drop_drop, h hr, List.drop_left]
      cases n with
      | zero => omega
      | succ n =>
        obtain ⟨k, hk⟩ := hd.frames_drop h (n := n) (j := j + 1) (by omega)
        refine ⟨k + 1, ?_⟩
        rw [c.frames_of_some hr, ← hnext, hk, List.drop_eq_getElem_cons hj, List.take_succ_cons]

theorem Detects.frames (h : c.Exact) {xs : List α} {b : Bytes} (hd : c.Detects xs b) : c.frames b <+: xs := by
  obtain ⟨k, hk⟩ := hd.frames_drop h (j := 0) rfl
  rw [List.take_zero, flat_nil, List.length_nil, List.drop_zero, List.drop_zero] at hk
  rw [hk]
  exact List.take_prefix k xs

/-- A stream of which every frame is still there. -/
theorem Exact.frames_drop (h : c.Exact) {b : Bytes} (hok : ∀ x ∈ c.frames b, c.Ok x) (j : Nat) :
    c.frames (b.drop (c.flat ((c.frames b).take j)).length) = (c.frames b).drop j := by
  obtain ⟨torn, hb, ht⟩ := h.holds_frames b
  have hdrop : b.drop (c.flat ((c.frames b).take j)).length = c.flat ((c.frames b).drop j) ++ torn := by
    have hcut := drop_flat (c := c) ((c.frames b).take j) ((c.frames b).drop j) torn
    rwa [List.take_append_drop, ← hb] at hcut
  rw [hdrop]
  exact Holds.frames ⟨torn, rfl, ht⟩ fun x hx => hok x (List.mem_of_mem_drop hx)

end Codec

end Lib
