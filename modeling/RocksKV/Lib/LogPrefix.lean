import RocksKV.Lib.Writes
/-!
# A map that follows a log

The entries of a log, each with its writes, are applied to a map, not always in order and not always once. Then each
key by itself still has a value from the log: the one it has after some prefix (`FromPrefix`). Applying any entry keeps
that, and applying the next entry moves the prefixes on (`FromPrefix.next`).
-/

namespace Lib

section
variable {K V E : Type} [LinearOrder K] (writes : E → List (Write K V))

/-- The map after the first `n` entries. -/
def replay (m : OrdMap K V) (es : List E) (n : Nat) : OrdMap K V := m.write ((es.take n).flatMap writes)

/-- Every key of `m'` has the value it has after some prefix of the log, which has `lo` entries at least. -/
def FromPrefix (m : OrdMap K V) (es : List E) (lo : Nat) (m' : OrdMap K V) : Prop :=
  ∀ k, ∃ n, lo ≤ n ∧ n ≤ es.length ∧ m'.get k = (replay writes m es n).get k

variable {writes} {m m' : OrdMap K V} {es : List E} {e : E} {a lo : Nat}

theorem replay_succ (h : es[a]? = some e) : replay writes m es (a + 1) = (replay writes m es a).write (writes e) := by
  rw [replay, List.take_add_one, h, Option.toList_some, List.flatMap_append, write_append, List.flatMap_singleton]
  rfl

theorem replay_concat {n : Nat} (hn : n ≤ es.length) : replay writes m (es ++ [e]) n = replay writes m es n := by
  rw [replay, List.take_append_of_le_length hn]
  rfl

namespace FromPrefix

theorem start : FromPrefix writes m es 0 m := fun _ => ⟨0, le_rfl, Nat.zero_le _, rfl⟩

theorem mono (h : FromPrefix writes m es a m') (hle : lo ≤ a) : FromPrefix writes m es lo m' := fun k => by
  obtain ⟨n, hlo, hn, hget⟩ := h k
  exact ⟨n, hle.trans hlo, hn, hget⟩

theorem concat (h : FromPrefix writes m es lo m') : FromPrefix writes m (es ++ [e]) lo m' := fun k => by
  obtain ⟨n, hlo, hn, hget⟩ := h k
  exact ⟨n, hlo, by simp only [List.length_append]; omega, by rw [replay_concat hn, hget]⟩

/-- Whatever entry is applied, what it writes is from the prefix that ends with it. -/
theorem apply (h : FromPrefix writes m es lo m') (he : es[a]? = some e) (hlo : lo ≤ a + 1) :
    FromPrefix writes m es lo (m'.write (writes e)) := fun k => by
  cases hlast : lastWrite k (writes e) with
  | none =>
    obtain ⟨n, hn⟩ := h k
    exact ⟨n, by rwa [get_write, hlast, Option.getD_none]⟩
  | some v =>
    have hlen : a < es.length := (List.getElem?_eq_some_iff.1 he).1
    exact ⟨a + 1, hlo, hlen, by rw [replay_succ he, get_write, get_write, hlast]; rfl⟩

/-- Where the first `a` entries are in, the next one takes every key on. -/
theorem next (h : FromPrefix writes m es a m') (he : es[a]? = some e) :
    FromPrefix writes m es (a + 1) (m'.write (writes e)) := fun k => by
  have hlen : a < es.length := (List.getElem?_eq_some_iff.1 he).1
  cases hlast : lastWrite k (writes e) with
  | some v => exact ⟨a + 1, le_rfl, hlen, by rw [replay_succ he, get_write, get_write, hlast]; rfl⟩
  | none =>
    -- the entry does not write `k`, so the prefixes of `a` and of `a + 1` entries agree on it
    obtain ⟨n, hlo, hn, hget⟩ := h k
    rw [get_write, hlast, Option.getD_none]
    rcases hlo.lt_or_eq with hlt | rfl
    · exact ⟨n, hlt, hn, hget⟩
    · exact ⟨a + 1, le_rfl, hlen, by rw [replay_succ he, get_write, hlast, Option.getD_none, hget]⟩

end FromPrefix

end

end Lib
