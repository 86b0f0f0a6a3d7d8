import RocksKV.Lib.OrdMap
/-!
# Write sequences over ordered maps

A `Write` puts or deletes one key. What a sequence of writes leaves at a key is decided by the last
write to it (`get_write`), so sequences over disjoint keys commute (`write_comm`) and a sequence can be
compared with another key by key.
-/

namespace Lib

/-- One effect on a map. -/
inductive Write (K V : Type)
  | put (k : K) (v : V)
  | delete (k : K)
  deriving DecidableEq, Repr

variable {K V : Type} [LinearOrder K]

namespace Write

def key : Write K V → K
  | put k _ | delete k => k

/-- What the write leaves at its key. -/
def val : Write K V → Option V
  | put _ v => some v
  | delete _ => none

def apply (m : OrdMap K V) : Write K V → OrdMap K V
  | put k v => m.insert k v
  | delete k => m.erase k

theorem get_apply (m : OrdMap K V) (w : Write K V) (x : K) :
    (w.apply m).get x = if x = w.key then w.val else m.get x := by
  cases w with
  | put k v => exact OrdMap.get_insert m k x v
  | delete k => exact OrdMap.get_erase m k x

end Write

/-- Apply a sequence of writes in order. -/
def OrdMap.write (m : OrdMap K V) (ws : List (Write K V)) : OrdMap K V := ws.foldl Write.apply m

@[simp] theorem write_nil (m : OrdMap K V) : m.write [] = m := rfl

theorem write_cons (m : OrdMap K V) (w : Write K V) (ws : List (Write K V)) :
    m.write (w :: ws) = (w.apply m).write ws := rfl

theorem write_append (m : OrdMap K V) (as bs : List (Write K V)) : m.write (as ++ bs) = (m.write as).write bs :=
  List.foldl_append

/-- What the last write to `k` leaves there, if any write touches `k`. -/
def lastWrite (k : K) : List (Write K V) → Option (Option V)
  | [] => none
  | w :: ws => (lastWrite k ws).or (if k = w.key then some w.val else none)

theorem lastWrite_append (k : K) : ∀ as bs : List (Write K V),
    lastWrite k (as ++ bs) = (lastWrite k bs).or (lastWrite k as)
  | [], bs => by simp [lastWrite]
  | w :: as, bs => by rw [List.cons_append, lastWrite, lastWrite_append k as bs, lastWrite, Option.or_assoc]

theorem lastWrite_eq_none {k : K} : ∀ {ws : List (Write K V)}, lastWrite k ws = none ↔ ∀ w ∈ ws, k ≠ w.key
  | [] => by simp [lastWrite]
  | w :: ws => by simp [lastWrite, lastWrite_eq_none, and_comm]

/-- **The last writer wins.** -/
theorem get_write (k : K) : ∀ (ws : List (Write K V)) (m : OrdMap K V),
    (m.write ws).get k = (lastWrite k ws).getD (m.get k)
  | [], m => rfl
  | w :: ws, m => by
    rw [write_cons, get_write k ws, Write.get_apply, lastWrite]
    cases lastWrite k ws with
    | some v => rfl
    | none => by_cases h : k = w.key <;> simp [h]

/-- Deletions leave nothing at their keys, and the rest alone. -/
theorem get_write_deletes (k : K) : ∀ (ks : List K) (m : OrdMap K V),
    (m.write (ks.map .delete)).get k = if k ∈ ks then none else m.get k
  | [], m => by simp
  | a :: ks, m => by
    rw [List.map_cons, write_cons, get_write_deletes k ks, Write.get_apply]
    by_cases hk : k ∈ ks
    · simp [hk]
    · by_cases ha : k = a <;> simp [hk, ha, Write.key, Write.val]

/-- **Writes to disjoint keys commute.** -/
theorem write_comm (m : OrdMap K V) {as bs : List (Write K V)} (hd : ∀ a ∈ as, ∀ b ∈ bs, a.key ≠ b.key) :
    (m.write as).write bs = (m.write bs).write as := by
  refine OrdMap.ext_get fun k => ?_
  simp only [get_write]
  by_cases ha : lastWrite k as = none
  · simp [ha]
  · have hb : lastWrite k bs = none := by
      rw [lastWrite_eq_none] at ha ⊢
      push Not at ha
      obtain ⟨a, ham, rfl⟩ := ha
      exact fun b hb => hd a ham b hb
    simp [hb]

/-- **Writes to keys that are all different** may come in any order. -/
theorem write_perm (m : OrdMap K V) {as bs : List (Write K V)} (h : as.Perm bs) (hnd : (as.map Write.key).Nodup) :
    m.write as = m.write bs := by
  refine h.foldl_eq' (fun a ha b hb m => ?_) m
  by_cases hab : a = b
  · rw [hab]
  · have hkey : a.key ≠ b.key := fun hkey => hab (List.inj_on_of_nodup_map hnd ha hb hkey)
    exact @write_comm _ _ _ m [a] [b] (by simpa using hkey)

theorem write_self (m : OrdMap K V) (ws : List (Write K V)) : (m.write ws).write ws = m.write ws := by
  refine OrdMap.ext_get fun k => ?_
  simp only [get_write]
  cases lastWrite k ws <;> rfl

/-- **Repeating writes** that no later one overwrites changes nothing. -/
theorem write_again (m : OrdMap K V) {as bs : List (Write K V)} (hd : ∀ a ∈ as, ∀ b ∈ bs, a.key ≠ b.key) :
    (m.write (as ++ bs)).write as = m.write (as ++ bs) := by
  rw [write_append, write_comm m hd, write_self]

end Lib
