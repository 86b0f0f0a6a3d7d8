import RocksKV.Compute.BatchPut
import RocksKV.Lib.Simulation
/-!
# What the cluster is for: a key-value store

Values of plain keys and of fields of documents, each of them once. Requests are atomic; a write that fails may still
happen, once and at any later time, and a batch that fails has stored some of its groups. `Cluster.Refinement` shows
that the servers are such a store. A cell that no failed write names holds what the last acknowledged write has left
(`contents_of_steps`).
-/

namespace RocksKV.Cluster

open Lib Storage Compute

/-- Where a value can be. -/
inductive Cell
  | plain (key : Bytes)
  | field (primaryKey name : Bytes)
  deriving DecidableEq, Repr

/-- A cell and what is left there. -/
abbrev Change := Cell × Option Bytes

abbrev Contents := Cell → Option Bytes

def Contents.apply (m : Contents) (changes : List Change) : Contents :=
  changes.foldl (fun m c => Function.update m c.1 c.2) m

def itemChanges (items : List KeyValueItem) : List Change := items.map fun item => (.plain item.key, some item.value)

/-- A request as its client sees it, with the answer; `settle` is not seen. -/
inductive Event
  | write (changes : List Change) (answer : Except String Unit)
  | batchPut (items : List KeyValueItem) (answer : Except String BatchPutResponse)
  | get (key : Bytes) (answer : Except String (Option Bytes))
  | getField (pk name : Bytes) (answer : Except String (Option Bytes))
  | getAllFields (pk : Bytes) (answer : Except String (OrdMap Bytes Bytes))
  | batchGet (items : List (Bytes × Option Bytes))
  | settle

structure Store where
  contents  : Contents
  /-- Failed writes that may still happen. -/
  unsettled : List (List Change)

/-- The items of a batch, by the part they belong to. -/
def groups (part : Bytes → UInt32) (items : List KeyValueItem) : List (List KeyValueItem) :=
  (groupBy (fun item => part item.key) items).entries.map (·.2)

/-- A write happens as a whole. A batch that fails has stored some of its groups, and others are unsettled. -/
inductive Store.Next (part : Bytes → UInt32) (s : Store) : Event → Store → Prop
  | wrote {cs} : Next part s (.write cs (.ok ())) { s with contents := s.contents.apply cs }
  | failed {cs e} : Next part s (.write cs (.error e)) s
  | unanswered {cs e} : Next part s (.write cs (.error e)) { s with unsettled := s.unsettled ++ [cs] }
  | batchPut {items} : Next part s (.batchPut items (.ok ⟨true, Int32.ofNat items.length⟩))
      { s with contents := s.contents.apply (itemChanges items) }
  | batchFailed {items e} (stored lost : List (List KeyValueItem)) (h : (stored ++ lost).Subperm (groups part items)) :
      Next part s (.batchPut items (.error e))
        { contents := s.contents.apply (itemChanges stored.flatten)
          unsettled := s.unsettled ++ lost.map itemChanges }
  | get {key} : Next part s (.get key (.ok (s.contents (.plain key)))) s
  | getFailed {key e} : Next part s (.get key (.error e)) s
  | getField {pk name} : Next part s (.getField pk name (.ok (s.contents (.field pk name)))) s
  | getFieldFailed {pk name e} : Next part s (.getField pk name (.error e)) s
  | getAllFields {pk fields} (h : ∀ name, fields.get name = s.contents (.field pk name)) :
      Next part s (.getAllFields pk (.ok fields)) s
  | getAllFieldsFailed {pk e} : Next part s (.getAllFields pk (.error e)) s
  /-- A key that could not be read is reported like one that is not there. -/
  | batchGet {items} (h : ∀ item ∈ items, item.2 = none ∨ item.2 = s.contents (.plain item.1)) :
      Next part s (.batchGet items) s
  | happened {i cs} (h : s.unsettled[i]? = some cs) :
      Next part s .settle { contents := s.contents.apply cs, unsettled := s.unsettled.eraseIdx i }
  | refused {i} : Next part s .settle { s with unsettled := s.unsettled.eraseIdx i }

/-! ## Changes -/

theorem apply_append (m : Contents) (as bs : List Change) : m.apply (as ++ bs) = (m.apply as).apply bs :=
  List.foldl_append

theorem itemChanges_append (as bs : List KeyValueItem) :
    itemChanges (as ++ bs) = itemChanges as ++ itemChanges bs := List.map_append

theorem apply_of_not_mem {c : Cell} : ∀ {cs : List Change} (m : Contents), c ∉ cs.map Prod.fst → m.apply cs c = m c
  | [], _, _ => rfl
  | d :: cs, m, h => by
    rw [List.map_cons, List.mem_cons, not_or] at h
    exact (apply_of_not_mem (Function.update m d.1 d.2) h.2).trans (Function.update_of_ne h.1 _ _)

theorem apply_congr {c : Cell} : ∀ {cs : List Change} {m m' : Contents}, m c = m' c → m.apply cs c = m'.apply cs c
  | [], _, _, h => h
  | d :: cs, m, m', h => by
    refine @apply_congr c cs (Function.update m d.1 d.2) (Function.update m' d.1 d.2) ?_
    by_cases hd : c = d.1
    · rw [hd, Function.update_self, Function.update_self]
    · rw [Function.update_of_ne hd, Function.update_of_ne hd, h]

/-! ## Cells that are not in doubt -/

/-- The changes of a write that was acknowledged. -/
def Event.acknowledged : Event → List Change
  | .write cs (.ok _) => cs
  | .batchPut items (.ok _) => itemChanges items
  | _ => []

/-- A write that failed names the cell. -/
def Event.Doubts (c : Cell) : Event → Prop
  | .write cs (.error _) => c ∈ cs.map Prod.fst
  | .batchPut items (.error _) => c ∈ (itemChanges items).map Prod.fst
  | _ => False

instance (c : Cell) : ∀ e : Event, Decidable (e.Doubts c)
  | .write _ (.error _) | .batchPut _ (.error _) => inferInstanceAs (Decidable (_ ∈ _))
  | .write _ (.ok _) | .batchPut _ (.ok _) | .get _ _ | .getField _ _ _ | .getAllFields _ _ | .batchGet _ | .settle =>
    isFalse nofun

/-- Failed writes that may still happen do not name the cell. -/
def Settled (c : Cell) (s : Store) : Prop := ∀ cs ∈ s.unsettled, c ∉ cs.map Prod.fst

theorem mem_itemChanges_of_subperm {part : Bytes → UInt32} {items : List KeyValueItem}
    {gs : List (List KeyValueItem)} (h : gs.Subperm (groups part items)) {group : List KeyValueItem} (hgroup : group ∈ gs)
    {c : Cell} (hc : c ∈ (itemChanges group).map Prod.fst) : c ∈ (itemChanges items).map Prod.fst := by
  obtain ⟨entry, hentry, rfl⟩ := List.mem_map.1 (h.subset hgroup)
  rw [eq_filter_of_mem_groupBy (show (entry.1, entry.2) ∈ _ from hentry)] at hc
  simp only [itemChanges, List.map_map, List.mem_map, List.mem_filter] at hc ⊢
  obtain ⟨item, ⟨hitem, -⟩, rfl⟩ := hc
  exact ⟨item, hitem, rfl⟩

/-- **A step** changes a cell that no failed write names only by an acknowledged write. -/
theorem Store.Next.contents {part : Bytes → UInt32} {s s' : Store} {e : Event} {c : Cell} (h : Store.Next part s e s')
    (hs : Settled c s) (he : ¬ e.Doubts c) : s'.contents c = s.contents.apply e.acknowledged c ∧ Settled c s' := by
  cases h with
  | wrote => exact ⟨rfl, hs⟩
  | failed => exact ⟨rfl, hs⟩
  | unanswered =>
    refine ⟨rfl, fun cs hcs => ?_⟩
    rcases List.mem_append.1 hcs with hold | hnew
    · exact hs cs hold
    · rw [List.mem_singleton.1 hnew]
      exact he
  | batchPut => exact ⟨rfl, hs⟩
  | batchFailed stored lost hgroups =>
    refine ⟨apply_of_not_mem _ fun hc => he ?_, fun cs hcs => ?_⟩
    · simp only [itemChanges, List.map_flatten, List.mem_flatten, List.mem_map] at hc
      obtain ⟨l, ⟨l', ⟨group, hgroup, rfl⟩, rfl⟩, hc⟩ := hc
      exact mem_itemChanges_of_subperm hgroups (List.mem_append_left _ hgroup) hc
    · rcases List.mem_append.1 hcs with hold | hnew
      · exact hs cs hold
      · obtain ⟨group, hgroup, rfl⟩ := List.mem_map.1 hnew
        exact fun hc => he (mem_itemChanges_of_subperm hgroups (List.mem_append_right _ hgroup) hc)
  | get | getFailed | getField | getFieldFailed | getAllFields _ | getAllFieldsFailed | batchGet _ => exact ⟨rfl, hs⟩
  | happened hi =>
    exact ⟨apply_of_not_mem _ (hs _ (List.mem_of_getElem? hi)), fun cs hcs => hs cs (List.mem_of_mem_eraseIdx hcs)⟩
  | refused => exact ⟨rfl, fun cs hcs => hs cs (List.mem_of_mem_eraseIdx hcs)⟩

/-- **A run** leaves such a cell as the acknowledged writes do, one after another. -/
theorem contents_of_steps {part : Bytes → UInt32} {c : Cell} {s s' : Store} {es : List Event}
    (h : Steps (Store.Next part) s es s') (hs : Settled c s) (hes : ∀ e ∈ es, ¬ e.Doubts c) :
    s'.contents c = s.contents.apply (es.flatMap Event.acknowledged) c := by
  induction h with
  | nil => rfl
  | cons hfirst _ ih =>
    obtain ⟨hcell, hsettled⟩ := hfirst.contents hs (hes _ List.mem_cons_self)
    rw [ih hsettled fun e he => hes e (List.mem_cons_of_mem _ he), List.flatMap_cons, apply_append]
    exact apply_congr hcell

end RocksKV.Cluster
