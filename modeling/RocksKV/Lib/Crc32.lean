import RocksKV.Lib.Bytes
/-!
# CRC-32 (IEEE polynomial, reflected), as `hash/crc32.ChecksumIEEE` computes it
-/

namespace Lib

/-- One bit of the reflected division by `0xEDB88320`. -/
def crcBit (c : UInt32) : UInt32 := if c &&& 1 = 1 then (c >>> 1) ^^^ 0xEDB88320 else c >>> 1

def crcByte (c : UInt32) (b : UInt8) : UInt32 :=
  crcBit (crcBit (crcBit (crcBit (crcBit (crcBit (crcBit (crcBit (c ^^^ b.toUInt32))))))))

def checksumIEEE (b : Bytes) : UInt32 := b.foldl crcByte 0xFFFFFFFF ^^^ 0xFFFFFFFF

/-- The check value of the CRC-32/ISO-HDLC catalogue entry, on the ASCII digits `123456789`. -/
example : checksumIEEE [0x31, 0x32, 0x33, 0x34, 0x35, 0x36, 0x37, 0x38, 0x39] = 0xCBF43926 := by
  decide +kernel

/-! ## Evaluation

Arithmetic on `Nat` is built into the kernel, that on `UInt32` is not: checksums of literals are evaluated on
natural numbers, and compared in one pass over their residues. -/

def crcBitNat (c : Nat) : Nat := if c % 2 = 1 then (c / 2) ^^^ 0xEDB88320 else c / 2

def crcByteNat (c : Nat) (b : UInt8) : Nat :=
  crcBitNat (crcBitNat (crcBitNat (crcBitNat (crcBitNat (crcBitNat (crcBitNat (crcBitNat (c ^^^ b.toNat))))))))

def checksumNat (b : Bytes) : Nat := b.foldl crcByteNat 0xFFFFFFFF ^^^ 0xFFFFFFFF

theorem toNat_crcBit (c : UInt32) : (crcBit c).toNat = crcBitNat c.toNat := by
  have hodd : c &&& 1 = 1 ↔ c.toNat % 2 = 1 := by
    rw [← UInt32.toNat_inj, UInt32.toNat_and, UInt32.toNat_one, Nat.and_one_is_mod]
  unfold crcBit crcBitNat
  simp only [hodd]
  split_ifs
  · simp [UInt32.toNat_xor, UInt32.toNat_shiftRight, Nat.shiftRight_eq_div_pow]
  · simp [UInt32.toNat_shiftRight, Nat.shiftRight_eq_div_pow]

theorem toNat_crcByte (c : UInt32) (b : UInt8) : (crcByte c b).toNat = crcByteNat c.toNat b := by
  simp only [crcByte, crcByteNat, toNat_crcBit, UInt32.toNat_xor, UInt8.toNat_toUInt32]

theorem toNat_foldl_crcByte (b : Bytes) (c : UInt32) : (b.foldl crcByte c).toNat = b.foldl crcByteNat c.toNat := by
  induction b generalizing c with
  | nil => rfl
  | cons x b ih => rw [List.foldl_cons, ih, toNat_crcByte, List.foldl_cons]

theorem checksumIEEE_eq (b : Bytes) : checksumIEEE b = UInt32.ofNat (checksumNat b) := by
  apply UInt32.toNat_inj.1
  have hlt := (checksumIEEE b).toNat_lt
  have hnat : (checksumIEEE b).toNat = checksumNat b := by
    rw [checksumIEEE, UInt32.toNat_xor, toNat_foldl_crcByte]
    rfl
  rw [hnat] at hlt ⊢
  exact (UInt32.toNat_ofNat_of_lt hlt).symm

/-- No two residues modulo `m` are the same, nor in `seen`, which has a bit for each of those met. -/
def distinctMod (m seen : Nat) : List Nat → Bool
  | [] => true
  | x :: xs => !seen.testBit (x % m) && distinctMod m (seen ||| 2 ^ (x % m)) xs

theorem nodup_of_distinctMod {m seen : Nat} {l : List Nat} (h : distinctMod m seen l = true) :
    l.Nodup ∧ ∀ x ∈ l, seen.testBit (x % m) = false := by
  induction l generalizing seen with
  | nil => simp
  | cons x xs ih =>
    rw [distinctMod, Bool.and_eq_true, Bool.not_eq_true'] at h
    obtain ⟨hnd, hseen⟩ := ih h.2
    simp only [Nat.testBit_or, Nat.testBit_two_pow, Bool.or_eq_false_iff, decide_eq_false_iff_not] at hseen
    refine ⟨List.nodup_cons.2 ⟨fun hx => (hseen x hx).2 rfl, hnd⟩, ?_⟩
    intro y hy
    rcases List.mem_cons.1 hy with rfl | hy
    · exact h.1
    · exact (hseen y hy).1

end Lib
