import RocksKV.Lib.OrdMap
/-!
# Byte strings: big-endian words and sequential readers

`be w n` is the `w`-byte big-endian image of `n` (mod `256 ^ w`) and `ofBe` reads one back. A
`Reader` consumes a byte string from the front and may fail; `Stable` readers do not look past
what they consume, so a reader that accepts `b` rejects every strict prefix of `b` (`Stable.short`).
A `Decoder` also says how its input has ended too early.
-/

namespace Lib

abbrev Bytes := List UInt8

/-- The `w` low-order bytes of `n`, most significant first. -/
def be : Nat → Nat → Bytes
  | 0, _ => []
  | w + 1, n => UInt8.ofNat (n / 256 ^ w) :: be w n

def ofBe (b : Bytes) : Nat := b.foldl (fun acc x => acc * 256 + x.toNat) 0

@[simp] theorem length_be : ∀ w n, (be w n).length = w
  | 0, _ => rfl
  | w + 1, n => by simp [be, length_be w n]

theorem foldl_be : ∀ (w n acc : Nat),
    (be w n).foldl (fun acc x => acc * 256 + x.toNat) acc = acc * 256 ^ w + n % 256 ^ w
  | 0, n, acc => by simp [be, Nat.mod_one]
  | w + 1, n, acc => by
    simp only [be, List.foldl_cons, foldl_be w n]
    have h1 : (UInt8.ofNat (n / 256 ^ w)).toNat = n / 256 ^ w % 256 := by simp
    have h2 : n % 256 ^ (w + 1) = n % 256 ^ w + 256 ^ w * (n / 256 ^ w % 256) := by
      rw [pow_succ, Nat.mod_mul]
    rw [h1, h2, pow_succ]
    ring

@[simp] theorem ofBe_be (w n : Nat) : ofBe (be w n) = n % 256 ^ w := by
  simp [ofBe, foldl_be]

theorem be_inj {w a b : Nat} (ha : a < 256 ^ w) (hb : b < 256 ^ w) (h : be w a = be w b) : a = b := by
  have := congrArg ofBe h
  rwa [ofBe_be, ofBe_be, Nat.mod_eq_of_lt ha, Nat.mod_eq_of_lt hb] at this

/-! ### Every word is the image of a number -/

theorem foldl_ofBe : ∀ (b : Bytes) (acc : Nat),
    b.foldl (fun acc x => acc * 256 + x.toNat) acc = acc * 256 ^ b.length + ofBe b
  | [], acc => by simp [ofBe]
  | x :: b, acc => by
    rw [ofBe, List.foldl_cons, List.foldl_cons, foldl_ofBe b, foldl_ofBe b, List.length_cons, pow_succ]
    ring

theorem ofBe_lt : ∀ b : Bytes, ofBe b < 256 ^ b.length
  | [] => by simp [ofBe]
  | x :: b => by
    have hx : x.toNat < 256 := x.toNat_lt
    have ih := ofBe_lt b
    rw [ofBe, List.foldl_cons, foldl_ofBe, List.length_cons, pow_succ, Nat.zero_mul, Nat.zero_add]
    have h := Nat.mul_le_mul_right (256 ^ b.length) (Nat.le_of_lt_succ hx)
    omega

/-- **Reading and writing back** a word of the width it has. -/
theorem be_foldl : ∀ (b : Bytes) (acc : Nat), be b.length (b.foldl (fun acc x => acc * 256 + x.toNat) acc) = b
  | [], _ => rfl
  | x :: b, acc => by
    rw [List.foldl_cons, List.length_cons, be, be_foldl b, foldl_ofBe,
      Nat.mul_comm, Nat.mul_add_div (by positivity), Nat.div_eq_of_lt (ofBe_lt b)]
    congr 1
    rw [← UInt8.toNat_inj, UInt8.toNat_ofNat']
    have := x.toNat_lt
    omega

theorem be_ofBe {w : Nat} {b : Bytes} (h : b.length = w) : be w (ofBe b) = b := h ▸ be_foldl b 0

/-- A word of four bytes, read into 32 bits. -/
theorem be_ofBe_uint32 {b : Bytes} (h : b.length = 4) : be 4 (UInt32.ofNat (ofBe b)).toNat = b := by
  have hlt : ofBe b < 2 ^ 32 := by
    have hlt := ofBe_lt b
    rwa [h] at hlt
  rw [UInt32.toNat_ofNat', Nat.mod_eq_of_lt hlt, be_ofBe h]

theorem be_ofBe_uint64 {b : Bytes} (h : b.length = 8) : be 8 (UInt64.ofNat (ofBe b)).toNat = b := by
  have hlt : ofBe b < 2 ^ 64 := by
    have hlt := ofBe_lt b
    rwa [h] at hlt
  rw [UInt64.toNat_ofNat', Nat.mod_eq_of_lt hlt, be_ofBe h]

/-- The part from `i` on, cut after `j` bytes. -/
theorem take_drop_append (b : Bytes) (i j : Nat) : (b.drop i).take j ++ b.drop (i + j) = b.drop i := by
  rw [← List.drop_drop, List.take_append_drop]

/-! ## Bytewise order -/

theorem lt_append_of_lt : ∀ {a b : Bytes}, a.length = b.length → a < b → ∀ s t : Bytes, a ++ s < b ++ t
  | [], [], _, h, _, _ => absurd h (lt_irrefl _)
  | x :: a, y :: b, hl, h, s, t => by
    rw [List.cons_append, List.cons_append]
    have hl' : a.length = b.length := by simpa using hl
    rcases List.cons_lt_cons_iff.1 h with hx | ⟨hx, hab⟩
    · exact List.cons_lt_cons_iff.2 (Or.inl hx)
    · exact List.cons_lt_cons_iff.2 (Or.inr ⟨hx, lt_append_of_lt hl' hab s t⟩)

theorem append_lt_append_left {s t : Bytes} : ∀ a : Bytes, a ++ s < a ++ t ↔ s < t
  | [] => Iff.rfl
  | x :: a => by
    rw [List.cons_append, List.cons_append, List.cons_lt_cons_iff, append_lt_append_left a]
    simp

theorem le_append (a s : Bytes) : a ≤ a ++ s := by
  induction a with
  | nil => exact not_lt.1 (by simp)
  | cons x a ih =>
    rw [List.cons_append, ← not_lt]
    intro h
    rcases List.cons_lt_cons_iff.1 h with h | ⟨-, h⟩
    · exact absurd h (lt_irrefl _)
    · exact absurd h (not_lt.2 ih)

/-- What lies between two strings starts as both do. -/
theorem exists_append_of_between : ∀ {a s t x : Bytes}, a ++ s ≤ x → x < a ++ t → ∃ y, x = a ++ y
  | [], _, _, x, _, _ => ⟨x, rfl⟩
  | c :: a, s, _, [], hlo, _ => absurd (List.nil_lt_cons c (a ++ s)) (not_lt.2 hlo)
  | c :: a, s, t, d :: x, hlo, hhi => by
    rw [List.cons_append, ← not_lt, List.cons_lt_cons_iff, not_or, not_lt] at hlo
    rw [List.cons_append, List.cons_lt_cons_iff] at hhi
    obtain ⟨hcd, htail⟩ := hlo
    rcases hhi with hlt | ⟨rfl, hlt⟩
    · exact absurd hlt (not_lt.2 hcd)
    · obtain ⟨y, rfl⟩ := exists_append_of_between (not_lt.1 fun h => htail ⟨rfl, h⟩) hlt
      exact ⟨y, rfl⟩

/-- A word only depends on the number modulo its range. -/
theorem be_mod (w n : Nat) : be w n = be w (n % 256 ^ w) := by
  have key : ∀ v, v ≤ w → ∀ n, be v n = be v (n % 256 ^ w) := by
    intro v
    induction v with
    | zero => intros; rfl
    | succ v ih =>
      intro hv n
      simp only [be, ih (by omega) n]
      congr 1
      have : n % 256 ^ w / 256 ^ v % 256 = n / 256 ^ v % 256 := by
        have hs : 256 ^ w = 256 ^ v * (256 * 256 ^ (w - v - 1)) := by
          rw [← pow_succ', ← pow_add]; congr 1; omega
        rw [hs, Nat.mod_mul_right_div_self, Nat.mod_mul_right_mod]
      apply UInt8.toNat_inj.1
      simp only [UInt8.toNat_ofNat']
      omega
  exact key w le_rfl n

theorem be_lt_be : ∀ {w a b : Nat}, b < 256 ^ w → a < b → be w a < be w b
  | 0, a, b, hb, h => by simp at hb; omega
  | w + 1, a, b, hb, h => by
    have hw : 0 < 256 ^ w := by positivity
    have hb' : b / 256 ^ w < 256 := Nat.div_lt_of_lt_mul (by rw [pow_succ] at hb; exact hb)
    have hle : a / 256 ^ w ≤ b / 256 ^ w := Nat.div_le_div_right h.le
    simp only [be, List.cons_lt_cons_iff]
    rcases Nat.lt_or_eq_of_le hle with hlt | heq
    · refine Or.inl (UInt8.lt_iff_toNat_lt.2 ?_)
      simp only [UInt8.toNat_ofNat']
      rw [Nat.mod_eq_of_lt (lt_of_le_of_lt hle hb'), Nat.mod_eq_of_lt hb']
      exact hlt
    · refine Or.inr ⟨by rw [heq], ?_⟩
      rw [be_mod w a, be_mod w b]
      refine be_lt_be (Nat.mod_lt _ hw) ?_
      have e1 := Nat.div_add_mod a (256 ^ w)
      have e2 := Nat.div_add_mod b (256 ^ w)
      rw [heq] at e1
      omega

/-! ## Sequential readers -/

/-- A computation that consumes bytes from the front of its input and may fail. -/
abbrev Reader (α : Type) := StateT Bytes Option α

namespace Reader

/-- Exactly `n` bytes, or failure. -/
def full (n : Nat) : Reader Bytes := fun b => if n ≤ b.length then some (b.take n, b.drop n) else none

/-- Fail unless `c` holds. -/
def require (c : Bool) : Reader Unit := fun b => if c then some ((), b) else none

@[simp] theorem full_append (a r : Bytes) : full a.length (a ++ r) = some (a, r) := by
  simp [full]

theorem full_append_of_length {a : Bytes} {n : Nat} (h : a.length = n) (r : Bytes) :
    full n (a ++ r) = some (a, r) := by
  subst h; exact full_append a r

theorem full_eq_some {n : Nat} {b a r : Bytes} : full n b = some (a, r) ↔ a.length = n ∧ b = a ++ r := by
  constructor
  · intro h
    unfold full at h
    split_ifs at h with hn
    cases h
    exact ⟨List.length_take_of_le hn, (List.take_append_drop n b).symm⟩
  · rintro ⟨hl, rfl⟩
    exact full_append_of_length hl r

/-- The reader decides by looking only at the bytes it consumes. -/
def Stable {α : Type} (p : Reader α) : Prop :=
  ∀ b x rest, p b = some (x, rest) → ∀ r, p (b ++ r) = some (x, rest ++ r)

/-- The reader consumes at least `k` bytes when it succeeds. -/
def Takes {α : Type} (k : Nat) (p : Reader α) : Prop :=
  ∀ b x rest, p b = some (x, rest) → rest.length + k ≤ b.length

variable {α β : Type}

theorem bind_eq (p : Reader α) (f : α → Reader β) (b : Bytes) :
    (p >>= f) b = (p b).bind fun q => f q.1 q.2 := rfl

theorem Stable.pure (x : α) : Stable (Pure.pure x : Reader α) := by
  intro b y rest h r
  cases h; rfl

theorem Stable.full (n : Nat) : Stable (full n) := by
  intro b x rest h r
  unfold Reader.full at h ⊢
  split_ifs at h with hn
  cases h
  rw [if_pos (by simp; omega), List.take_append_of_le_length hn, List.drop_append_of_le_length hn]

theorem Stable.require (c : Bool) : Stable (require c) := by
  intro b x rest h r
  unfold Reader.require at h ⊢
  split_ifs at h ⊢ with hc
  cases h; rfl

theorem Stable.bind {p : Reader α} {f : α → Reader β} (hp : Stable p) (hf : ∀ x, Stable (f x)) :
    Stable (p >>= f) := by
  intro b y rest h r
  rw [bind_eq] at h ⊢
  obtain ⟨⟨x, b'⟩, h1, h2⟩ := Option.bind_eq_some_iff.1 h
  rw [hp b x b' h1 r]
  exact hf x b' y rest h2 r

/-- **A strict prefix of an accepted input is rejected**: a stable reader that consumes all of `b`
fails on every shorter prefix of `b`. -/
theorem Stable.short {p : Reader α} (hp : Stable p) {b : Bytes} {x : α} (h : p b = some (x, []))
    {m : Nat} (hm : m < b.length) : p (b.take m) = none := by
  cases hc : p (b.take m) with
  | none => rfl
  | some q =>
    obtain ⟨y, rest⟩ := q
    have h2 := hp _ _ _ hc (b.drop m)
    rw [List.take_append_drop, h] at h2
    have h3 : rest ++ b.drop m = [] := (congrArg Prod.snd (Option.some.inj h2)).symm
    have h4 := congrArg List.length h3
    simp at h4
    omega

theorem Takes.full (n : Nat) : Takes n (full n) := by
  intro b x rest h
  unfold Reader.full at h
  split_ifs at h with hn
  cases h
  simp; omega

theorem Takes.pure (x : α) : Takes 0 (Pure.pure x : Reader α) := by
  intro b y rest h
  cases h; simp

theorem Takes.require (c : Bool) : Takes 0 (require c) := by
  intro b x rest h
  unfold Reader.require at h
  split_ifs at h
  cases h; simp

theorem Takes.bind {p : Reader α} {f : α → Reader β} {j k : Nat} (hp : Takes j p) (hf : ∀ x, Takes k (f x)) :
    Takes (j + k) (p >>= f) := by
  intro b y rest h
  rw [bind_eq] at h
  obtain ⟨⟨x, b'⟩, h1, h2⟩ := Option.bind_eq_some_iff.1 h
  have := hp b x b' h1
  have := hf x b' y rest h2
  omega

theorem Takes.mono {p : Reader α} {j k : Nat} (hp : Takes j p) (h : k ≤ j) : Takes k p := fun b x rest e => by
  have := hp b x rest e; omega

end Reader

/-! ## Decoders

A reader whose failures are told apart: the input ends before what is to be read, or in the middle of it. -/

inductive Eof
  | eof
  | unexpected
  deriving DecidableEq

def Eof.text : Eof → String
  | eof => "EOF"
  | unexpected => "unexpected EOF"

abbrev Decoder (α : Type) := StateT Bytes (Except Eof) α

namespace Decoder

/-- Exactly `n` bytes. -/
def full (n : Nat) : Decoder Bytes := fun b =>
  if n ≤ b.length then .ok (b.take n, b.drop n) else .error (if b = [] then .eof else .unexpected)

/-- A big-endian word of `w` bytes. -/
def word (w : Nat) : Decoder Nat := do return ofBe (← full w)

/-- Fill a buffer of `n` bytes with what is left, the rest of the buffer keeping its zeros; failure only
when nothing is left at all. -/
def upTo (n : Nat) : Decoder Bytes := fun b =>
  if b = [] then .error .eof else .ok (b.take n ++ List.replicate (n - b.length) 0, b.drop n)

variable {α β : Type}

/-- The decoder does not accept the input. -/
def Fails (p : Decoder α) (b : Bytes) : Prop := ∃ e, p b = .error e

theorem bind_of_ok {p : Decoder α} {b : Bytes} {q : α × Bytes} (h : p b = .ok q) (f : α → Decoder β) :
    (p >>= f) b = f q.1 q.2 := by
  change (p b >>= fun q => f q.1 q.2) = _
  rw [h]
  rfl

theorem bind_of_error {p : Decoder α} {b : Bytes} {e : Eof} (h : p b = .error e) (f : α → Decoder β) :
    (p >>= f) b = .error e := by
  change (p b >>= fun q => f q.1 q.2) = _
  rw [h]
  rfl

theorem Fails.bind {p : Decoder α} {b : Bytes} (h : Fails p b) (f : α → Decoder β) : Fails (p >>= f) b :=
  h.imp fun _ he => bind_of_error he f

theorem bind_eq_ok {p : Decoder α} {f : α → Decoder β} {b : Bytes} {r : β × Bytes} :
    (p >>= f) b = .ok r ↔ ∃ q, p b = .ok q ∧ f q.1 q.2 = .ok r := by
  cases h : p b with
  | error e =>
    rw [bind_of_error h]
    simp
  | ok q =>
    rw [bind_of_ok h]
    simp

theorem fails_bind_pure {p : Decoder α} {g : α → β} {b : Bytes} :
    Fails (p >>= fun x => Pure.pure (g x)) b ↔ Fails p b := by
  refine ⟨fun hf => ?_, fun hf => hf.bind _⟩
  cases h : p b with
  | error e => exact ⟨e, h⟩
  | ok q =>
    obtain ⟨e, he⟩ := hf
    rw [bind_of_ok h] at he
    cases he

theorem word_eq_ok {w n : Nat} {b rest : Bytes} :
    word w b = .ok (n, rest) ↔ w ≤ b.length ∧ n = ofBe (b.take w) ∧ rest = b.drop w := by
  rw [word, bind_eq_ok]
  constructor
  · rintro ⟨q, hq, hr⟩
    unfold full at hq
    split_ifs at hq with h
    cases hq
    cases hr
    exact ⟨h, rfl, rfl⟩
  · rintro ⟨h, rfl, rfl⟩
    exact ⟨(b.take w, b.drop w), if_pos h, rfl⟩

theorem word_be (w n : Nat) (r : Bytes) : word w (be w n ++ r) = .ok (n % 256 ^ w, r) := by
  refine word_eq_ok.2 ⟨by simp, ?_, ?_⟩
  · rw [List.take_left' (length_be w n), ofBe_be]
  · rw [List.drop_left' (length_be w n)]

theorem word_lt {w n : Nat} {b rest : Bytes} (h : word w b = .ok (n, rest)) : n < 256 ^ w := by
  obtain ⟨hw, rfl, -⟩ := word_eq_ok.1 h
  have hlt := ofBe_lt (b.take w)
  rwa [List.length_take, Nat.min_eq_left hw] at hlt

theorem word_of_short {w : Nat} {b : Bytes} (h : b.length < w) : Fails (word w) b :=
  Fails.bind ⟨_, if_neg (not_le.2 h)⟩ _

theorem upTo_eq_ok {n : Nat} {b x rest : Bytes} :
    upTo n b = .ok (x, rest) ↔ b ≠ [] ∧ x = b.take n ++ List.replicate (n - b.length) 0 ∧ rest = b.drop n := by
  unfold upTo
  split_ifs with h
  · simp [h]
  · simp [h, eq_comm]

theorem upTo_append {a r : Bytes} {n : Nat} (h : a.length = n) (hne : a ++ r ≠ []) :
    upTo n (a ++ r) = .ok (a, r) := by
  subst h
  rw [upTo, if_neg hne]
  simp

theorem upTo_zero {b : Bytes} (h : b ≠ []) : upTo 0 b = .ok ([], b) :=
  upTo_eq_ok.2 ⟨h, by simp, rfl⟩

theorem length_of_upTo {n : Nat} {b x rest : Bytes} (h : upTo n b = .ok (x, rest)) : x.length = n := by
  obtain ⟨-, rfl, -⟩ := upTo_eq_ok.1 h
  simp
  omega

/-- A buffer of which a part is there is filled up with zeros. -/
theorem upTo_take {a : Bytes} {m : Nat} (hpos : 0 < m) (hm : m < a.length) :
    upTo a.length (a.take m) = .ok (a.take m ++ List.replicate (a.length - m) 0, []) := by
  have hlen : (a.take m).length = m := List.length_take_of_le hm.le
  refine upTo_eq_ok.2 ⟨List.ne_nil_of_length_pos (by omega), ?_, (List.drop_of_length_le (by omega)).symm⟩
  rw [List.take_take, Nat.min_eq_right hm.le, hlen]

/-! ### Cut inputs

`full` and `word` refuse an input that ends too early, `upTo` fills up what it lacks. In a sequence of decoders a cut
is still noticed by the next one, which finds nothing. -/

/-- The decoder reads `x` off `a`, and all there is when a part of `a` is missing. -/
structure Drains (p : Decoder α) (a : Bytes) (x : α) : Prop where
  reads : ∀ r, r ≠ [] → p (a ++ r) = .ok (x, r)
  cut   : ∀ m, m ≤ a.length → ∀ y rest, p (a.take m) = .ok (y, rest) → rest = []

theorem Drains.word (w n : Nat) : Drains (word w) (be w n) (n % 256 ^ w) where
  reads r _ := word_be w n r
  cut m hm y rest h := by
    obtain ⟨-, -, rfl⟩ := word_eq_ok.1 h
    exact List.drop_of_length_le (by simp)

theorem Drains.upTo (a : Bytes) : Drains (upTo a.length) a a where
  reads r hr := upTo_append rfl (by simp [hr])
  cut m hm y rest h := by
    obtain ⟨-, -, rfl⟩ := upTo_eq_ok.1 h
    exact List.drop_of_length_le (by simp)

section
variable {p : Decoder α} {f : α → Decoder β} {a : Bytes} {x : α}

/-- **A cut input of two decoders in sequence**: the second finds nothing unless the first got all it wanted. -/
theorem Drains.bind_fails (hp : Drains p a x) (hf : ∀ y, Fails (f y) []) (b : Bytes) {m : Nat} (hm : m ≤ a.length) :
    Fails (p >>= f) ((a ++ b).take m) := by
  rw [List.take_append_of_le_length hm]
  cases hc : p (a.take m) with
  | error e => exact ⟨e, bind_of_error hc f⟩
  | ok q =>
    rw [Fails, bind_of_ok hc, hp.cut m hm q.1 q.2 hc]
    exact hf q.1

theorem Drains.bind_take (hp : Drains p a x) {b : Bytes} (hb : b ≠ []) {m : Nat} (hm : a.length < m) :
    (p >>= f) ((a ++ b).take m) = f x (b.take (m - a.length)) := by
  have hne : b.take (m - a.length) ≠ [] := by
    rw [ne_eq, List.take_eq_nil_iff]
    exact not_or.2 ⟨by omega, hb⟩
  rw [List.take_append, List.take_of_length_le hm.le, bind_of_ok (hp.reads _ hne)]

end

end Decoder

end Lib
