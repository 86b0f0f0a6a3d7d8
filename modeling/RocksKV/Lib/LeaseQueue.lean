import Mathlib
/-!
# Keys of sessions in the order of their creation

Locks and elections on a store with leases work alike: every party puts a key of its own under a common prefix, tied to
its lease, and the party whose key was created first is the owner. Ownership passes on when that key is deleted, by its
party or with the lease; a party that already has a key keeps it (`join`).
-/

namespace Lib

structure LeaseQueue (S : Type) where
  keys  : List S
  nodup : keys.Nodup

namespace LeaseQueue

variable {S : Type} [DecidableEq S] {q : LeaseQueue S} {s t : S}

def empty : LeaseQueue S := ⟨[], List.nodup_nil⟩

/-- Put a key, unless there is one. -/
def join (q : LeaseQueue S) (s : S) : LeaseQueue S :=
  if h : s ∈ q.keys then q
  else ⟨q.keys ++ [s], List.nodup_append.2 ⟨q.nodup, List.nodup_singleton s, fun _ ha _ hb hab =>
    h (List.mem_singleton.1 hb ▸ hab ▸ ha)⟩⟩

/-- The key is deleted, or its lease ends. -/
def leave (q : LeaseQueue S) (s : S) : LeaseQueue S := ⟨q.keys.erase s, q.nodup.erase s⟩

/-- Whose key is the oldest. -/
def owner (q : LeaseQueue S) : Option S := q.keys.head?

/-- The keys that are older than the party's. -/
def ahead (q : LeaseQueue S) (s : S) : List S := q.keys.takeWhile (· ≠ s)

theorem mem_join : t ∈ (q.join s).keys ↔ t ∈ q.keys ∨ t = s := by
  unfold join
  split_ifs with h
  · exact ⟨.inl, fun ht => ht.elim id fun heq => heq ▸ h⟩
  · rw [List.mem_append, List.mem_singleton]

theorem mem_leave : t ∈ (q.leave s).keys ↔ t ≠ s ∧ t ∈ q.keys := q.nodup.mem_erase_iff

theorem owner_join (h : q.owner = some t) : (q.join s).owner = some t := by
  unfold join owner at *
  split_ifs with hs
  · exact h
  · rw [List.head?_append, h]
    rfl

/-- **A party that is not the owner** leaves the owner alone. -/
theorem owner_leave (h : q.owner = some t) (hne : s ≠ t) : (q.leave s).owner = some t := by
  obtain ⟨keys, hnd⟩ := q
  cases keys with
  | nil => cases h
  | cons a keys =>
    obtain rfl := Option.some.inj h
    show ((a :: keys).erase s).head? = some a
    rw [List.erase_cons_tail (by simpa using hne.symm)]
    rfl

/-! ## Waiting for older keys -/

theorem ahead_subset_keys : q.ahead s ⊆ q.keys := (List.takeWhile_sublist _).subset

/-- **First in the queue**: nobody is ahead of a key that is there. -/
theorem owner_of_ahead (hs : s ∈ q.keys) (h : q.ahead s = []) : q.owner = some s := by
  obtain ⟨keys, hnd⟩ := q
  cases keys with
  | nil => exact absurd hs List.not_mem_nil
  | cons a keys =>
    by_cases has : a = s
    · rw [← has]
      rfl
    · rw [ahead, List.takeWhile_cons_of_pos (by simpa using has)] at h
      cases h

theorem ahead_join (ht : t ∈ q.keys) : (q.join s).ahead t = q.ahead t := by
  have happend : ∀ {keys : List S}, t ∈ keys → (keys ++ [s]).takeWhile (· ≠ t) = keys.takeWhile (· ≠ t) := by
    intro keys hmem
    induction keys with
    | nil => exact absurd hmem List.not_mem_nil
    | cons a keys ih =>
      by_cases hat : a = t
      · simp [hat]
      · have hrest := ih ((List.mem_cons.1 hmem).resolve_left (Ne.symm hat))
        rw [List.cons_append, List.takeWhile_cons_of_pos (by simpa using hat),
          List.takeWhile_cons_of_pos (by simpa using hat), hrest]
  unfold join ahead
  split_ifs
  · rfl
  · exact happend ht

theorem ahead_leave (hne : s ≠ t) : (q.leave s).ahead t ⊆ q.ahead t := by
  have herase : ∀ keys : List S, (keys.erase s).takeWhile (· ≠ t) ⊆ keys.takeWhile (· ≠ t) := by
    intro keys
    induction keys with
    | nil => exact List.Subset.refl _
    | cons a keys ih =>
      by_cases has : a = s
      · rw [has, List.erase_cons_head, List.takeWhile_cons_of_pos (by simpa using hne)]
        exact List.subset_cons_self _ _
      · rw [List.erase_cons_tail (by simpa using has)]
        by_cases hat : a = t
        · simp [hat]
        · rw [List.takeWhile_cons_of_pos (by simpa using hat), List.takeWhile_cons_of_pos (by simpa using hat)]
          exact List.cons_subset_cons a ih
  exact herase q.keys

end LeaseQueue

end Lib
