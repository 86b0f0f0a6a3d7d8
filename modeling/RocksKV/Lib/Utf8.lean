import RocksKV.Lib.Bytes
/-!
# UTF-8

A rune takes one to four bytes, and its first byte says how many (`size`). A string is valid if it is a sequence of
runes. `toValid` copies the runes of a string and puts U+FFFD in the place of each byte at which no rune starts; what
it returns is valid (`valid_toValid`), and it changes nothing exactly in a valid string (`toValid_eq_self_iff`).
-/

namespace Lib.Utf8

/-- A byte after the first. -/
def isCont (b : UInt8) : Bool := decide (0x80 ≤ b) && decide (b ≤ 0xbf)

/-- The second byte, of which the first one may allow a part only: longer encodings of shorter runes, surrogates and
runes past U+10FFFF are left out. -/
def isSecond (b₀ b : UInt8) : Bool :=
  if b₀ = 0xe0 then decide (0xa0 ≤ b) && decide (b ≤ 0xbf)
  else if b₀ = 0xed then decide (0x80 ≤ b) && decide (b ≤ 0x9f)
  else if b₀ = 0xf0 then decide (0x90 ≤ b) && decide (b ≤ 0xbf)
  else if b₀ = 0xf4 then decide (0x80 ≤ b) && decide (b ≤ 0x8f)
  else isCont b

/-- The number of bytes of a rune that starts with the byte, zero if none does. -/
def size (b₀ : UInt8) : Nat :=
  if b₀ < 0x80 then 1
  else if b₀ < 0xc2 then 0
  else if b₀ < 0xe0 then 2
  else if b₀ < 0xf0 then 3
  else if b₀ < 0xf5 then 4
  else 0

/-- The string is one rune. -/
def isRune : Bytes → Bool
  | [b₀] => decide (size b₀ = 1)
  | [b₀, b₁] => decide (size b₀ = 2) && isSecond b₀ b₁
  | [b₀, b₁, b₂] => decide (size b₀ = 3) && isSecond b₀ b₁ && isCont b₂
  | [b₀, b₁, b₂, b₃] => decide (size b₀ = 4) && isSecond b₀ b₁ && isCont b₂ && isCont b₃
  | _ => false

/-- The length of the rune at the front, zero if there is none. -/
def runeLen : Bytes → Nat
  | [] => 0
  | b₀ :: rest => if isRune ((b₀ :: rest).take (size b₀)) then size b₀ else 0

/-- The bytes of U+FFFD. -/
def replacement : Bytes := [0xef, 0xbf, 0xbd]

/-- The first argument counts the bytes that are left of the rune that is being copied. -/
def copyRunes : Nat → Bytes → Bytes
  | _, [] => []
  | n + 1, b :: rest => b :: copyRunes n rest
  | 0, b :: rest =>
    match runeLen (b :: rest) with
    | 0 => replacement ++ copyRunes 0 rest
    | n + 1 => b :: copyRunes n rest

def toValid (b : Bytes) : Bytes := copyRunes 0 b

/-- A sequence of runes. -/
def Valid (b : Bytes) : Prop := ∃ runes : List Bytes, (∀ r ∈ runes, isRune r = true) ∧ runes.flatten = b

/-! ## The rune at the front -/

/-- The first byte of a rune tells its length. -/
theorem size_of_isRune {b₀ : UInt8} {rest : Bytes} (h : isRune (b₀ :: rest) = true) : size b₀ = rest.length + 1 := by
  match rest with
  | [] => simpa [isRune] using h
  | [_] => simp [isRune] at h; exact h.1
  | [_, _] => simp [isRune] at h; exact h.1.1
  | [_, _, _] => simp [isRune] at h; exact h.1.1.1
  | _ :: _ :: _ :: _ :: _ => simp [isRune] at h

theorem runeLen_append {r : Bytes} (hr : isRune r = true) (s : Bytes) : runeLen (r ++ s) = r.length := by
  cases r with
  | nil => cases hr
  | cons b₀ rest =>
    have hsize := size_of_isRune hr
    rw [List.cons_append, runeLen, hsize, ← List.cons_append, List.take_left' List.length_cons, if_pos hr,
      List.length_cons]

/-- Where there is a rune at the front, it is the first `runeLen b` bytes. -/
theorem isRune_take {b : Bytes} (h : runeLen b ≠ 0) : isRune (b.take (runeLen b)) = true := by
  cases b with
  | nil => exact absurd rfl h
  | cons b₀ rest =>
    rw [runeLen] at h ⊢
    split_ifs at h ⊢ with hrune
    · exact hrune
    · exact absurd rfl h

theorem copyRunes_eq : ∀ (n : Nat) (b : Bytes), copyRunes n b = b.take n ++ toValid (b.drop n)
  | 0, b => rfl
  | n + 1, [] => rfl
  | n + 1, b :: rest => by
    rw [copyRunes, copyRunes_eq n rest]
    rfl

/-- **A string at its front**: a rune is copied, any other byte is replaced. -/
theorem toValid_eq {b : Bytes} (hb : b ≠ []) :
    toValid b = if runeLen b = 0 then replacement ++ toValid (b.drop 1)
      else b.take (runeLen b) ++ toValid (b.drop (runeLen b)) := by
  obtain ⟨b₀, rest, rfl⟩ := List.exists_cons_of_ne_nil hb
  cases hlen : runeLen (b₀ :: rest) with
  | zero => simp [toValid, copyRunes, hlen]
  | succ n =>
    rw [if_neg n.succ_ne_zero, List.take_succ_cons, List.drop_succ_cons, List.cons_append, ← copyRunes_eq]
    simp [toValid, copyRunes, hlen]

theorem toValid_rune_append {r : Bytes} (hr : isRune r = true) (s : Bytes) : toValid (r ++ s) = r ++ toValid s := by
  have hne : r ≠ [] := by
    rintro rfl
    cases hr
  rw [toValid_eq (List.append_ne_nil_of_left_ne_nil hne s), runeLen_append hr, if_neg (by simpa using hne),
    List.take_left' rfl, List.drop_left' rfl]

/-! ## Valid strings -/

theorem valid_nil : Valid [] := ⟨[], by simp, rfl⟩

theorem Valid.rune_append {r s : Bytes} (hr : isRune r = true) (hs : Valid s) : Valid (r ++ s) := by
  obtain ⟨runes, hrunes, rfl⟩ := hs
  exact ⟨r :: runes, List.forall_mem_cons.2 ⟨hr, hrunes⟩, List.flatten_cons⟩

theorem Valid.toValid {b : Bytes} (h : Valid b) : toValid b = b := by
  obtain ⟨runes, hrunes, rfl⟩ := h
  induction runes with
  | nil => rfl
  | cons r runes ih =>
    rw [List.forall_mem_cons] at hrunes
    rw [List.flatten_cons, toValid_rune_append hrunes.1, ih hrunes.2]

/-- **What `toValid` returns is valid.** -/
theorem valid_toValid (b : Bytes) : Valid (Utf8.toValid b) := by
  -- by the length of what is left to copy
  induction hn : b.length using Nat.strong_induction_on generalizing b with
  | _ n ih =>
    by_cases hb : b = []
    · rw [hb]
      exact valid_nil
    · rw [toValid_eq hb]
      have hpos := List.length_pos_iff.2 hb
      have hshorter : ∀ m, m ≠ 0 → (b.drop m).length < n := fun m hm => by
        rw [List.length_drop]
        omega
      split_ifs with hlen
      · exact Valid.rune_append (by decide) (ih _ (hshorter 1 one_ne_zero) _ rfl)
      · exact Valid.rune_append (isRune_take hlen) (ih _ (hshorter _ hlen) _ rfl)

/-- **Exactly the valid strings are left as they are.** -/
theorem toValid_eq_self_iff {b : Bytes} : Utf8.toValid b = b ↔ Valid b :=
  ⟨fun h => h ▸ valid_toValid b, Valid.toValid⟩

instance (b : Bytes) : Decidable (Valid b) := decidable_of_iff _ toValid_eq_self_iff

end Lib.Utf8
