import RocksKV.Lib.Bytes
/-!
# Decimal text

`decimal n` are the ASCII digits of `n` and `parseDecimal` reads them back. Of two digit strings of one length the one
with the smaller value comes first (`lt_of_ofDecimal_lt`), so numbers padded to one width sort as they count; and a
digit string cut short has no greater value (`ofDecimal_take_le`).
-/

namespace Lib

def digit (d : Nat) : UInt8 := UInt8.ofNat (48 + d)

def isDigit (b : UInt8) : Bool := decide (48 ≤ b.toNat ∧ b.toNat < 58)

def decimal (n : Nat) : Bytes :=
  if n < 10 then [digit n] else decimal (n / 10) ++ [digit (n % 10)]
  termination_by n
  decreasing_by omega

/-- The value of a digit string. -/
def ofDecimal (b : Bytes) : Nat := b.foldl (fun acc x => acc * 10 + (x.toNat - 48)) 0

/-- Digits only, and at least one. -/
def parseDecimal (b : Bytes) : Option Nat := if b ≠ [] ∧ b.all isDigit = true then some (ofDecimal b) else none

/-- Zeros in front, up to the width `w`. -/
def zeroPad (w : Nat) (b : Bytes) : Bytes := List.replicate (w - b.length) (digit 0) ++ b

theorem toNat_digit {d : Nat} (h : d < 10) : (digit d).toNat = 48 + d := by
  rw [digit, UInt8.toNat_ofNat', Nat.mod_eq_of_lt (by omega)]

theorem isDigit_digit {d : Nat} (h : d < 10) : isDigit (digit d) = true := by
  rw [isDigit, toNat_digit h]
  simp
  omega

theorem forall_mem_decimal (n : Nat) : ∀ x ∈ decimal n, isDigit x = true := by
  induction n using decimal.induct with
  | case1 n h =>
    rw [decimal, if_pos h]
    simpa using isDigit_digit h
  | case2 n h ih =>
    rw [decimal, if_neg h]
    intro x hx
    rcases List.mem_append.1 hx with hx | hx
    · exact ih x hx
    · rw [List.mem_singleton.1 hx]
      exact isDigit_digit (Nat.mod_lt _ (by omega))

theorem decimal_ne_nil (n : Nat) : decimal n ≠ [] := by
  rw [decimal]
  split_ifs <;> simp

/-! ## Values -/

theorem foldl_ofDecimal : ∀ (b : Bytes) (acc : Nat),
    b.foldl (fun acc x => acc * 10 + (x.toNat - 48)) acc = acc * 10 ^ b.length + ofDecimal b
  | [], acc => by simp [ofDecimal]
  | x :: b, acc => by
    rw [ofDecimal, List.foldl_cons, List.foldl_cons, foldl_ofDecimal b, foldl_ofDecimal b, List.length_cons, pow_succ]
    ring

theorem ofDecimal_cons (x : UInt8) (b : Bytes) : ofDecimal (x :: b) = (x.toNat - 48) * 10 ^ b.length + ofDecimal b := by
  rw [ofDecimal, List.foldl_cons, foldl_ofDecimal, Nat.zero_mul, Nat.zero_add]

theorem ofDecimal_append (a b : Bytes) : ofDecimal (a ++ b) = ofDecimal a * 10 ^ b.length + ofDecimal b := by
  rw [ofDecimal, List.foldl_append, foldl_ofDecimal]
  rfl

theorem ofDecimal_decimal (n : Nat) : ofDecimal (decimal n) = n := by
  induction n using decimal.induct with
  | case1 n h =>
    rw [decimal, if_pos h, ofDecimal_cons, toNat_digit h]
    simp [ofDecimal]
  | case2 n h ih =>
    have hdigit : (digit (n % 10)).toNat = 48 + n % 10 := toNat_digit (Nat.mod_lt _ (by omega))
    rw [decimal, if_neg h, ofDecimal_append, ih, ofDecimal_cons, hdigit]
    simp [ofDecimal]
    omega

theorem parseDecimal_decimal (n : Nat) : parseDecimal (decimal n) = some n := by
  rw [parseDecimal, if_pos ⟨decimal_ne_nil n, List.all_eq_true.2 (forall_mem_decimal n)⟩, ofDecimal_decimal]

theorem ofDecimal_take_le (b : Bytes) (k : Nat) : ofDecimal (b.take k) ≤ ofDecimal b := by
  have hsplit := ofDecimal_append (b.take k) (b.drop k)
  rw [List.take_append_drop] at hsplit
  have hpos : 0 < 10 ^ (b.drop k).length := by positivity
  have hle := Nat.le_mul_of_pos_right (ofDecimal (b.take k)) hpos
  omega

theorem ofDecimal_lt : ∀ {b : Bytes}, (∀ x ∈ b, isDigit x = true) → ofDecimal b < 10 ^ b.length
  | [], _ => by simp [ofDecimal]
  | x :: b, h => by
    have ih := @ofDecimal_lt b fun y hy => h y (List.mem_cons_of_mem x hy)
    have hx : x.toNat - 48 ≤ 9 := by
      have hdigit := of_decide_eq_true (h x List.mem_cons_self)
      omega
    have hmul := Nat.mul_le_mul_right (10 ^ b.length) hx
    rw [ofDecimal_cons, List.length_cons, pow_succ]
    omega

/-! ## Padding -/

theorem length_decimal_le {w : Nat} : ∀ {n : Nat}, n < 10 ^ (w + 1) → (decimal n).length ≤ w + 1 := by
  induction w with
  | zero =>
    intro n h
    rw [decimal, if_pos (by simpa using h)]
    exact le_rfl
  | succ w ih =>
    intro n h
    rw [decimal]
    split_ifs with hsmall
    · simp
    · have hdiv := @ih (n / 10) (by rw [pow_succ] at h; omega)
      rw [List.length_append, List.length_singleton]
      omega

theorem length_zeroPad {w : Nat} {b : Bytes} (h : b.length ≤ w) : (zeroPad w b).length = w := by
  rw [zeroPad, List.length_append, List.length_replicate]
  omega

theorem ofDecimal_zeroPad (w : Nat) (b : Bytes) : ofDecimal (zeroPad w b) = ofDecimal b := by
  have hzeros : ∀ k, ofDecimal (List.replicate k (digit 0)) = 0 := by
    intro k
    induction k with
    | zero => rfl
    | succ k ih =>
      rw [List.replicate_succ, ofDecimal_cons, ih]
      simp [digit]
  rw [zeroPad, ofDecimal_append, hzeros, Nat.zero_mul, Nat.zero_add]

theorem forall_mem_zeroPad {w : Nat} {b : Bytes} (h : ∀ x ∈ b, isDigit x = true) : ∀ x ∈ zeroPad w b, isDigit x = true := by
  intro x hx
  rcases List.mem_append.1 hx with hx | hx
  · rw [List.eq_of_mem_replicate hx]
    rfl
  · exact h x hx

/-- **The order of digit strings of one length is that of their values.** -/
theorem lt_of_ofDecimal_lt : ∀ {a b : Bytes}, a.length = b.length → (∀ x ∈ a, isDigit x = true) →
    (∀ x ∈ b, isDigit x = true) → ofDecimal a < ofDecimal b → a < b
  | [], [], _, _, _, h => absurd h (Nat.lt_irrefl _)
  | x :: a, y :: b, hlen, ha, hb, h => by
    have hlen' : a.length = b.length := by simpa using hlen
    have hbound := @ofDecimal_lt b fun z hz => hb z (List.mem_cons_of_mem y hz)
    have hx := of_decide_eq_true (ha x List.mem_cons_self)
    have hy := of_decide_eq_true (hb y List.mem_cons_self)
    rw [ofDecimal_cons, ofDecimal_cons, hlen'] at h
    rw [List.cons_lt_cons_iff]
    rcases Nat.lt_trichotomy x.toNat y.toNat with hlt | heq | hgt
    · exact .inl (UInt8.lt_iff_toNat_lt.2 hlt)
    · obtain rfl : x = y := UInt8.toNat_inj.1 heq
      refine .inr ⟨rfl, lt_of_ofDecimal_lt hlen' (fun z hz => ha z (List.mem_cons_of_mem x hz))
        (fun z hz => hb z (List.mem_cons_of_mem x hz)) ?_⟩
      omega
    · -- the first digit decides
      have hmul := Nat.mul_le_mul_right (10 ^ b.length) (show y.toNat - 48 + 1 ≤ x.toNat - 48 by omega)
      rw [Nat.succ_mul] at hmul
      omega

/-- Numbers padded to one width sort as they count. -/
theorem zeroPad_lt_zeroPad {w m n : Nat} (hn : n < 10 ^ (w + 1)) (h : m < n) :
    zeroPad (w + 1) (decimal m) < zeroPad (w + 1) (decimal n) := by
  refine lt_of_ofDecimal_lt ?_ (forall_mem_zeroPad (forall_mem_decimal m)) (forall_mem_zeroPad (forall_mem_decimal n)) ?_
  · rw [length_zeroPad (length_decimal_le (Nat.lt_trans h hn)), length_zeroPad (length_decimal_le hn)]
  · rw [ofDecimal_zeroPad, ofDecimal_zeroPad, ofDecimal_decimal, ofDecimal_decimal]
    exact h

end Lib
