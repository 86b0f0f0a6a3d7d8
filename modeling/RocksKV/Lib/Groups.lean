import RocksKV.Lib.OrdMap
/-!
# Lists taken apart by a key

`groupBy` collects the elements of each key in a map, in the order of the list. When steps for elements of different
keys commute, going through the list and going through the groups, in any order of the groups, end in the same
state (`foldl_groups`). Steps for elements of one key need not commute: their order is the list's in both.
-/

namespace Lib

variable {K α σ : Type} [LinearOrder K]

def groupBy (key : α → K) (l : List α) : OrdMap K (List α) :=
  l.foldl (fun m a => m.insert (key a) ((m.get (key a)).getD [] ++ [a])) .empty

section
variable {key : α → K} {l : List α}

theorem getD_get_groupBy (k : K) : ((groupBy key l).get k).getD [] = l.filter fun a => decide (key a = k) := by
  -- the loop, from a map that already holds groups
  have hloop : ∀ (l : List α) (m : OrdMap K (List α)),
      ((l.foldl (fun m a => m.insert (key a) ((m.get (key a)).getD [] ++ [a])) m).get k).getD [] =
        (m.get k).getD [] ++ l.filter fun a => decide (key a = k) := by
    intro l
    induction l with
    | nil =>
      intro m
      simp
    | cons a l ih =>
      intro m
      rw [List.foldl_cons, ih, OrdMap.get_insert]
      by_cases hk : k = key a
      · simp [hk]
      · simp [hk, Ne.symm hk]
  rw [groupBy, hloop]
  simp

theorem eq_filter_of_mem_groupBy {k : K} {g : List α} (h : (k, g) ∈ (groupBy key l).entries) :
    g = l.filter fun a => decide (key a = k) := by
  rw [← getD_get_groupBy, OrdMap.mem_entries.1 h]
  rfl

theorem key_mem_groupBy {a : α} (ha : a ∈ l) : key a ∈ (groupBy key l).keys := by
  rw [OrdMap.mem_keys]
  by_contra hnone
  have hgroup := @getD_get_groupBy _ _ _ key l (key a)
  rw [OrdMap.contains_eq_false.1 (Bool.eq_false_iff.2 hnone)] at hgroup
  exact List.ne_nil_of_mem (List.mem_filter.2 ⟨ha, by simp⟩) hgroup.symm

end

/-! ## Folds over groups -/

section
variable {key : α → K} {f : σ → α → σ} (hcomm : ∀ s a b, key a ≠ key b → f (f s a) b = f (f s b) a)
include hcomm

omit [LinearOrder K] in
/-- A step moves to the front of a list without its key. -/
theorem foldl_cons_of_ne (a : α) : ∀ {l : List α} (s : σ), (∀ b ∈ l, key a ≠ key b) →
    l.foldl f (f s a) = f (l.foldl f s) a
  | [], _, _ => rfl
  | b :: l, s, h => by
    rw [List.foldl_cons, List.foldl_cons, hcomm s a b (h b List.mem_cons_self),
      foldl_cons_of_ne a (f s b) fun c hc => h c (List.mem_cons_of_mem _ hc)]

theorem foldl_filters : ∀ {l : List α} {ks : List K} (s : σ), ks.Nodup → (∀ a ∈ l, key a ∈ ks) →
    (ks.flatMap fun k => l.filter fun a => decide (key a = k)).foldl f s = l.foldl f s
  | [], ks, s, _, _ => by
    have hnil : (ks.flatMap fun k => ([] : List α).filter fun a => decide (key a = k)) = [] :=
      List.flatMap_eq_nil_iff.2 fun _ _ => rfl
    rw [hnil]
  | a :: l, ks, s, hnd, hks => by
    obtain ⟨before, after, rfl⟩ := List.append_of_mem (hks a List.mem_cons_self)
    have hother : ∀ ks' : List K, key a ∉ ks' →
        (ks'.flatMap fun k => (a :: l).filter fun a => decide (key a = k)) =
          ks'.flatMap fun k => l.filter fun a => decide (key a = k) := by
      intro ks' hnot
      refine List.flatMap_congr fun k hk => List.filter_cons_of_neg ?_
      simpa using fun heq : key a = k => hnot (heq ▸ hk)
    have hbefore : key a ∉ before := fun h => (List.nodup_append.1 hnd).2.2 _ h _ List.mem_cons_self rfl
    have hafter : key a ∉ after := (List.nodup_cons.1 (List.nodup_append.1 hnd).2.1).1
    have hfree : ∀ b ∈ before.flatMap (fun k => l.filter fun a => decide (key a = k)), key a ≠ key b := by
      intro b hb heq
      obtain ⟨k, hk, hbk⟩ := List.mem_flatMap.1 hb
      have hkey : key b = k := by simpa using (List.mem_filter.1 hbk).2
      exact hbefore (heq ▸ hkey ▸ hk)
    -- only the group of `a` has changed, and `a` is its first element: move it to the front
    rw [List.foldl_cons, ← foldl_filters (f s a) hnd fun b hb => hks b (List.mem_cons_of_mem _ hb),
      List.flatMap_append, List.flatMap_append, List.flatMap_cons, List.flatMap_cons, hother before hbefore,
      hother after hafter, List.filter_cons_of_pos (by simp)]
    simp only [List.foldl_append, List.foldl_cons]
    rw [foldl_cons_of_ne hcomm a s hfree]

/-- **Group by group or one by one**: the groups may come in any order. -/
theorem foldl_groups {l : List α} {groups : List (K × List α)} (h : groups.Perm (groupBy key l).entries) (s : σ) :
    (groups.flatMap (·.2)).foldl f s = l.foldl f s := by
  have hgroups : groups.flatMap (·.2) =
      (groups.map (·.1)).flatMap fun k => l.filter fun a => decide (key a = k) := by
    rw [List.flatMap_map]
    exact List.flatMap_congr fun g hg => eq_filter_of_mem_groupBy (h.mem_iff.1 hg)
  have hkeys : (groups.map (·.1)).Perm (groupBy key l).keys := h.map _
  rw [hgroups]
  exact foldl_filters hcomm s (hkeys.nodup_iff.2 (OrdMap.nodup_keys _)) fun a ha => hkeys.mem_iff.2 (key_mem_groupBy ha)

end

end Lib
