import Mathlib
/-!
# Ordered maps

A finite map kept as the list of its entries in strictly increasing key order. Two maps with
the same lookups are equal (`ext_get`), and a traversal is a traversal of the entry list: `seek k`
is what an iterator positioned at the first key `≥ k` still has to visit.
-/

namespace Lib

/-! ## Orders on machine words, so that words and byte strings can be keys -/

instance instLinearOrderUInt8 : LinearOrder UInt8 where
  le_refl a := UInt8.le_refl a
  le_trans _ _ _ := UInt8.le_trans
  lt_iff_le_not_ge a b := by rw [UInt8.not_le, and_iff_right_of_imp UInt8.le_of_lt]
  le_antisymm _ _ := UInt8.le_antisymm
  le_total a b := UInt8.le_total a b
  toDecidableLE := inferInstance
  toDecidableLT := inferInstance
  toDecidableEq := inferInstance

instance instLinearOrderUInt32 : LinearOrder UInt32 where
  le_refl a := UInt32.le_refl a
  le_trans _ _ _ := UInt32.le_trans
  lt_iff_le_not_ge a b := by rw [UInt32.not_le, and_iff_right_of_imp UInt32.le_of_lt]
  le_antisymm _ _ := UInt32.le_antisymm
  le_total a b := UInt32.le_total a b
  toDecidableLE := inferInstance
  toDecidableLT := inferInstance
  toDecidableEq := inferInstance

-- by name: otherwise each membership test below would build the instance anew from the order
instance instLawfulBEqUInt32 : LawfulBEq UInt32 := inferInstance

instance instLinearOrderUInt64 : LinearOrder UInt64 where
  le_refl a := UInt64.le_refl a
  le_trans _ _ _ := UInt64.le_trans
  lt_iff_le_not_ge a b := by rw [UInt64.not_le, and_iff_right_of_imp UInt64.le_of_lt]
  le_antisymm _ _ := UInt64.le_antisymm
  le_total a b := UInt64.le_total a b
  toDecidableLE := inferInstance
  toDecidableLT := inferInstance
  toDecidableEq := inferInstance

/-- A finite map as its entries in strictly increasing key order. -/
structure OrdMap (K V : Type) [LinearOrder K] where
  entries : List (K × V)
  sorted  : entries.Pairwise (fun a b => a.1 < b.1)

namespace OrdMap

variable {K V W : Type} [LinearOrder K]

/-- Lookup in an entry list. -/
def look (k : K) : List (K × V) → Option V
  | [] => none
  | (a, v) :: l => if k = a then some v else look k l

/-- Insertion in key order, replacing an entry with the same key. -/
def ins (k : K) (v : V) : List (K × V) → List (K × V)
  | [] => [(k, v)]
  | (a, b) :: l =>
    if k < a then (k, v) :: (a, b) :: l
    else if k = a then (k, v) :: l
    else (a, b) :: ins k v l

theorem mem_ins {k : K} {v : V} {e : K × V} : ∀ {l : List (K × V)}, e ∈ ins k v l → e = (k, v) ∨ e ∈ l
  | [], h => by simpa [ins] using h
  | (a, b) :: l, h => by
    unfold ins at h
    split_ifs at h with h1 h2
    · simpa using h
    · rcases List.mem_cons.1 h with h | h
      · exact Or.inl h
      · exact Or.inr (by simp [h])
    · rcases List.mem_cons.1 h with h | h
      · exact Or.inr (by simp [h])
      · rcases mem_ins h with h | h
        · exact Or.inl h
        · exact Or.inr (by simp [h])

theorem sorted_ins (k : K) (v : V) :
    ∀ {l : List (K × V)}, l.Pairwise (fun a b => a.1 < b.1) → (ins k v l).Pairwise (fun a b => a.1 < b.1)
  | [], _ => by simp [ins]
  | (a, b) :: l, h => by
    rw [List.pairwise_cons] at h
    unfold ins
    split_ifs with h1 h2
    · refine List.pairwise_cons.2 ⟨fun e he => ?_, List.pairwise_cons.2 h⟩
      rcases List.mem_cons.1 he with rfl | he
      · exact h1
      · exact lt_trans h1 (h.1 e he)
    · subst h2; exact List.pairwise_cons.2 h
    · refine List.pairwise_cons.2 ⟨fun e he => ?_, sorted_ins k v h.2⟩
      rcases mem_ins he with rfl | he
      · exact lt_of_le_of_ne (not_lt.1 h1) (Ne.symm h2)
      · exact h.1 e he

theorem look_ins (k : K) (v : V) (x : K) :
    ∀ l : List (K × V), look x (ins k v l) = if x = k then some v else look x l
  | [] => by simp [ins, look]
  | (a, b) :: l => by
    unfold ins
    by_cases h1 : k < a
    · simp [h1, look]
    · by_cases h2 : k = a
      · subst h2
        by_cases h3 : x = k <;> simp [look, h3]
      · by_cases h3 : x = k
        · subst h3; simp [h1, h2, look, look_ins x v x l]
        · simp [h1, h2, h3, look, look_ins k v x l]

theorem look_eq_some {k : K} {v : V} :
    ∀ {l : List (K × V)}, l.Pairwise (fun a b => a.1 < b.1) → (look k l = some v ↔ (k, v) ∈ l)
  | [], _ => by simp [look]
  | (a, b) :: l, h => by
    rw [List.pairwise_cons] at h
    simp only [look, List.mem_cons, Prod.mk.injEq]
    split_ifs with hk
    · subst hk
      simp only [Option.some.injEq, true_and]
      refine ⟨fun e => Or.inl e.symm, ?_⟩
      rintro (e | hm)
      · exact e.symm
      · exact absurd (h.1 _ hm) (lt_irrefl _)
    · rw [look_eq_some h.2]; simp [hk]

theorem look_filter (p : K → Bool) (k : K) :
    ∀ l : List (K × V), look k (l.filter fun e => p e.1) = if p k then look k l else none
  | [] => by simp [look]
  | (a, b) :: l => by
    rw [List.filter_cons]
    by_cases hk : k = a
    · subst hk
      cases hp : p k <;> simp [look, look_filter p k l, hp]
    · cases hp : p a <;> simp [look, look_filter p k l, hk]

theorem look_map (f : K → V → W) (k : K) :
    ∀ l : List (K × V), look k (l.map fun e => (e.1, f e.1 e.2)) = (look k l).map (f k)
  | [] => rfl
  | (a, b) :: l => by
    by_cases hk : k = a
    · subst hk; simp [look]
    · simp [look, hk, look_map f k l]

/-! ## The map operations -/

def empty : OrdMap K V := ⟨[], List.Pairwise.nil⟩

def get (m : OrdMap K V) (k : K) : Option V := look k m.entries

def insert (m : OrdMap K V) (k : K) (v : V) : OrdMap K V := ⟨ins k v m.entries, sorted_ins k v m.sorted⟩

/-- Keep the entries whose key satisfies `p`. -/
def keep (m : OrdMap K V) (p : K → Bool) : OrdMap K V :=
  ⟨m.entries.filter fun e => p e.1, m.sorted.sublist List.filter_sublist⟩

def erase (m : OrdMap K V) (k : K) : OrdMap K V := m.keep fun a => decide (a ≠ k)

/-- Rewrite every value. -/
def mapVal (m : OrdMap K V) (f : K → V → W) : OrdMap K W :=
  ⟨m.entries.map fun e => (e.1, f e.1 e.2), by
    rw [List.pairwise_map]; exact m.sorted⟩

def keys (m : OrdMap K V) : List K := m.entries.map Prod.fst

def contains (m : OrdMap K V) (k : K) : Bool := (m.get k).isSome

/-- The entries an iterator positioned at the first key `≥ k` visits, in order. -/
def seek (m : OrdMap K V) (k : K) : List (K × V) := m.entries.dropWhile fun e => decide (e.1 < k)

@[simp] theorem get_empty (k : K) : (empty : OrdMap K V).get k = none := rfl

theorem get_insert (m : OrdMap K V) (k x : K) (v : V) :
    (m.insert k v).get x = if x = k then some v else m.get x := look_ins k v x m.entries

@[simp] theorem get_insert_self (m : OrdMap K V) (k : K) (v : V) : (m.insert k v).get k = some v := by
  simp [get_insert]

theorem get_insert_ne (m : OrdMap K V) {k x : K} (v : V) (h : x ≠ k) : (m.insert k v).get x = m.get x := by
  simp [get_insert, h]

theorem get_keep (m : OrdMap K V) (p : K → Bool) (k : K) :
    (m.keep p).get k = if p k then m.get k else none := look_filter p k m.entries

theorem get_erase (m : OrdMap K V) (k x : K) :
    (m.erase k).get x = if x = k then none else m.get x := by
  rw [erase, get_keep]; by_cases h : x = k <;> simp [h]

@[simp] theorem get_mapVal (m : OrdMap K V) (f : K → V → W) (k : K) :
    (m.mapVal f).get k = (m.get k).map (f k) := look_map f k m.entries

theorem mem_entries {m : OrdMap K V} {k : K} {v : V} : (k, v) ∈ m.entries ↔ m.get k = some v :=
  (look_eq_some m.sorted).symm

theorem mem_keys {m : OrdMap K V} {k : K} : k ∈ m.keys ↔ m.contains k = true := by
  simp only [keys, List.mem_map, contains, Option.isSome_iff_exists]
  constructor
  · rintro ⟨⟨a, v⟩, h, rfl⟩; exact ⟨v, mem_entries.1 h⟩
  · rintro ⟨v, h⟩; exact ⟨(k, v), mem_entries.2 h, rfl⟩

theorem contains_eq_false {m : OrdMap K V} {k : K} : m.contains k = false ↔ m.get k = none := by
  simp [contains]

theorem eq_of_entries {m n : OrdMap K V} (h : m.entries = n.entries) : m = n := by
  cases m; cases n; cases h; rfl

/-- Sorted entry lists with the same members are the same list. -/
theorem eq_of_mem_iff {l l' : List (K × V)} (h : l.Pairwise (fun a b => a.1 < b.1))
    (h' : l'.Pairwise (fun a b => a.1 < b.1)) (hm : ∀ e, e ∈ l ↔ e ∈ l') : l = l' := by
  have nd : ∀ {l : List (K × V)}, l.Pairwise (fun a b => a.1 < b.1) → l.Nodup := fun h =>
    h.imp fun hab e => absurd hab (by rw [e]; exact lt_irrefl _)
  exact List.Perm.eq_of_pairwise (fun a b _ _ hab hba => absurd hab (not_lt.2 hba.le)) h h'
    ((List.perm_ext_iff_of_nodup (nd h) (nd h')).2 hm)

/-- **Extensionality**: a map is determined by its lookups. -/
theorem ext_get {m n : OrdMap K V} (h : ∀ k, m.get k = n.get k) : m = n :=
  eq_of_entries (eq_of_mem_iff m.sorted n.sorted fun ⟨k, v⟩ => by rw [mem_entries, mem_entries, h k])

instance [DecidableEq V] : DecidableEq (OrdMap K V) := fun m n =>
  decidable_of_iff (m.entries = n.entries) ⟨eq_of_entries, fun h => h ▸ rfl⟩

/-! ## Traversals -/

theorem dropWhile_eq_filter (k : K) : ∀ {l : List (K × V)}, l.Pairwise (fun a b => a.1 < b.1) →
    l.dropWhile (fun e => decide (e.1 < k)) = l.filter fun e => decide (k ≤ e.1)
  | [], _ => rfl
  | (a, b) :: l, h => by
    rw [List.pairwise_cons] at h
    rw [List.dropWhile_cons, List.filter_cons]
    by_cases hk : a < k
    · simp [hk, not_le.2 hk, dropWhile_eq_filter k h.2]
    · have hall : l.filter (fun e => decide (k ≤ e.1)) = l :=
        List.filter_eq_self.2 fun e he => by simpa using (not_lt.1 hk).trans (h.1 e he).le
      simp [hk, not_lt.1 hk, hall]

theorem seek_eq_filter (m : OrdMap K V) (k : K) : m.seek k = m.entries.filter fun e => decide (k ≤ e.1) :=
  dropWhile_eq_filter k m.sorted

/-- Reading while a test holds reads every key that passes it, when a key past a failing one fails too. -/
theorem takeWhile_eq_filter {p : K → Bool} : ∀ {l : List (K × V)}, l.Pairwise (fun a b => a.1 < b.1) →
    (∀ a ∈ l, ∀ b ∈ l, a.1 < b.1 → p a.1 = false → p b.1 = false) →
      (l.takeWhile fun e => p e.1) = l.filter fun e => p e.1
  | [], _, _ => rfl
  | e :: l, h, hp => by
    rw [List.pairwise_cons] at h
    rw [List.takeWhile_cons, List.filter_cons]
    cases he : p e.1 with
    | true =>
      have hp' : ∀ a ∈ l, ∀ b ∈ l, a.1 < b.1 → p a.1 = false → p b.1 = false := fun a ha b hb =>
        hp a (List.mem_cons_of_mem _ ha) b (List.mem_cons_of_mem _ hb)
      simp [takeWhile_eq_filter h.2 hp']
    | false =>
      have hnone : l.filter (fun e => p e.1) = [] := List.filter_eq_nil_iff.2 fun b hb => by
        simp [hp e List.mem_cons_self b (List.mem_cons_of_mem _ hb) (h.1 b hb) he]
      simp [hnone]

theorem sorted_seek (m : OrdMap K V) (k : K) : (m.seek k).Pairwise (fun a b => a.1 < b.1) :=
  m.sorted.sublist (List.dropWhile_sublist _)

theorem nodup_keys (m : OrdMap K V) : m.keys.Nodup := by
  rw [keys, List.nodup_iff_pairwise_ne, List.pairwise_map]
  exact m.sorted.imp fun h => ne_of_lt h

/-- **A loop that rewrites one key per element**, each key at most once: what is seen at a key after the
loop is what its own element makes of what was there before. -/
theorem foldl_view {σ ε ν : Type} (view : σ → K → ν) {key : ε → K} {f : σ → ε → σ} {upd : ε → ν → ν}
    (hf : ∀ s e k, view (f s e) k = if k = key e then upd e (view s k) else view s k) (k : K) :
    ∀ {l : List ε} (s : σ), (l.map key).Nodup →
      view (l.foldl f s) k = ((l.find? fun e => decide (k = key e)).map fun e => upd e (view s k)).getD (view s k)
  | [], s, _ => rfl
  | e :: l, s, hnd => by
    rw [List.map_cons, List.nodup_cons] at hnd
    rw [List.foldl_cons, foldl_view view hf k (f s e) hnd.2, List.find?_cons, hf]
    by_cases hk : k = key e
    · subst hk
      have hnone : l.find? (fun x => decide (key e = key x)) = none := by
        refine List.find?_eq_none.2 fun x hx => ?_
        simpa using fun h : key e = key x => hnd.1 (h ▸ List.mem_map_of_mem hx)
      simp [hnone]
    · simp [hk]

/-- Write a list of entries over a map, in order. -/
def overlay (m : OrdMap K V) (l : List (K × V)) : OrdMap K V := l.foldl (fun m e => m.insert e.1 e.2) m

theorem get_overlay_sorted (k : K) : ∀ {l : List (K × V)} (m : OrdMap K V),
    l.Pairwise (fun a b => a.1 < b.1) → (m.overlay l).get k = (look k l).or (m.get k)
  | [], _, _ => by simp [overlay, look]
  | (a, b) :: l, m, h => by
    rw [List.pairwise_cons] at h
    have ih := get_overlay_sorted k (m.insert a b) h.2
    rw [overlay, List.foldl_cons]
    change ((m.insert a b).overlay l).get k = _
    rw [ih, get_insert]
    by_cases hk : k = a
    · subst hk
      have hn : look k l = none := by
        cases hl : look k l with
        | none => rfl
        | some v => exact absurd (h.1 _ ((look_eq_some h.2).1 hl)) (lt_irrefl _)
      simp [look, hn]
    · simp [look, hk]

theorem overlay_entries (m : OrdMap K V) : (empty : OrdMap K V).overlay m.entries = m := by
  refine ext_get fun k => ?_
  rw [get_overlay_sorted k _ m.sorted, get_empty, Option.or_none]
  rfl

/-- What is found after an overlay was laid over or was there before. -/
theorem mem_of_get_overlay {k : K} {v : V} : ∀ {l : List (K × V)} {m : OrdMap K V},
    (m.overlay l).get k = some v → (k, v) ∈ l ∨ m.get k = some v
  | [], _, h => .inr h
  | e :: l, m, h => by
    rcases mem_of_get_overlay (m := m.insert e.1 e.2) h with hmem | hget
    · exact .inl (List.mem_cons_of_mem _ hmem)
    · rw [get_insert] at hget
      split_ifs at hget with hk
      · cases hget
        exact .inl (hk ▸ List.mem_cons_self)
      · exact .inr hget

/-! ## Values -/

def values (m : OrdMap K V) : List V := m.entries.map Prod.snd

theorem mem_values {m : OrdMap K V} {v : V} : v ∈ m.values ↔ ∃ k, m.get k = some v := by
  simp only [values, List.mem_map, ← mem_entries]
  constructor
  · rintro ⟨e, he, rfl⟩
    exact ⟨e.1, he⟩
  · rintro ⟨k, hk⟩
    exact ⟨(k, v), hk, rfl⟩

theorem nodup_of_sorted {l : List (K × V)} (h : l.Pairwise fun a b => a.1 < b.1) : l.Nodup :=
  h.imp fun hab heq => absurd (congrArg Prod.fst heq) hab.ne

/-- What is behind the first `n` entries has other keys than they. -/
theorem mem_drop_of_sorted {l : List (K × V)} (h : l.Pairwise fun a b => a.1 < b.1) (n : Nat) {e : K × V} :
    e ∈ l.drop n ↔ e ∈ l ∧ e.1 ∉ (l.take n).map Prod.fst := by
  rw [← List.take_append_drop n l, List.pairwise_append] at h
  obtain ⟨-, -, hlt⟩ := h
  constructor
  · intro he
    refine ⟨List.mem_of_mem_drop he, fun hmem => ?_⟩
    obtain ⟨a, ha, heq⟩ := List.mem_map.1 hmem
    exact absurd (hlt a ha e he) (heq ▸ lt_irrefl _)
  · rintro ⟨he, hnot⟩
    rw [← List.take_append_drop n l] at he
    exact (List.mem_append.1 he).resolve_left fun htake => hnot (List.mem_map_of_mem htake)

/-- A new key adds its value. -/
theorem values_insert {m : OrdMap K V} {k : K} (v : V) (h : m.get k = none) :
    (m.insert k v).values.Perm (v :: m.values) := by
  have hentries : (m.insert k v).entries.Perm ((k, v) :: m.entries) := by
    have hnew : (k, v) ∉ m.entries := fun hin => by simp [mem_entries.1 hin] at h
    refine (List.perm_ext_iff_of_nodup (nodup_of_sorted (m.insert k v).sorted)
      (List.nodup_cons.2 ⟨hnew, nodup_of_sorted m.sorted⟩)).2 ?_
    rintro ⟨x, w⟩
    rw [mem_entries, List.mem_cons, mem_entries, get_insert, Prod.mk.injEq]
    by_cases hx : x = k
    · subst hx
      simp [h, eq_comm]
    · simp [hx]
  exact hentries.map Prod.snd

/-- A key takes its value with it. -/
theorem values_erase {m : OrdMap K V} {k : K} {v : V} (h : m.get k = some v) :
    m.values.Perm (v :: (m.erase k).values) := by
  have hentries : m.entries.Perm ((k, v) :: (m.erase k).entries) := by
    have hgone : (k, v) ∉ (m.erase k).entries := fun hin => by
      have := mem_entries.1 hin
      simp [get_erase] at this
    refine (List.perm_ext_iff_of_nodup (nodup_of_sorted m.sorted)
      (List.nodup_cons.2 ⟨hgone, nodup_of_sorted (m.erase k).sorted⟩)).2 ?_
    rintro ⟨x, w⟩
    rw [mem_entries, List.mem_cons, mem_entries, get_erase, Prod.mk.injEq]
    by_cases hx : x = k
    · subst hx
      simp [h, eq_comm]
    · simp [hx]
  exact hentries.map Prod.snd

end OrdMap

end Lib
