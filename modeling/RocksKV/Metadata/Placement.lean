import RocksKV.Lib.Circle
import RocksKV.Metadata.Ring
/-!
# Where the ring places a partition (`pkg/metadata/consistent_hash.go:86-163`)

| here | there |
| --- | --- |
| `currentNodes` | the nodes that `AddNode` and `RemoveNode` calls leave |
| `ordered`      | the virtual nodes of a set of nodes in the order of their hashes, each with its owner |
| `reference`    | what `GetNodes` (`:100-127`) is to find, from the set of nodes alone |
| `Covers`       | `ring`, `nodeMap` and `nodes` agree with that set |

With no collision among the virtual nodes the ring is the sorted list of their hashes, however the nodes came and went
(`covers_run`), and `search` with the walk of `GetNodes` reads that list clockwise from the partition's hash. A node that
joins adds its virtual nodes to this list, one that leaves takes them out; the others stay in their order, so a partition
never moves between two of them (`minimal_movement`).
-/

namespace RocksKV.Metadata

open Lib

/-! ## The reference -/

def RingOp.onNodes (S : Finset String) : RingOp → Finset String
  | .addNode nodeAddr => insert nodeAddr S
  | .removeNode nodeAddr => S.erase nodeAddr

def currentNodes (ops : List RingOp) : Finset String := ops.foldl RingOp.onNodes ∅

/-- All virtual nodes of the addresses in `T` have different hashes. -/
def DistinctLabels (hash : String → UInt32) (virtualNodes : Nat) (T : String → Prop) : Prop :=
  ∀ a b, T a → T b → ∀ i < virtualNodes, ∀ j < virtualNodes, virtualHash hash a i = virtualHash hash b j → a = b ∧ i = j

section
variable (hash : String → UInt32) (virtualNodes : Nat)

/-- The virtual nodes of the addresses in `S`: hash and owner. -/
def placesOf (S : Finset String) : Finset (UInt32 ×ₗ String) :=
  S.biUnion fun a => (Finset.range virtualNodes).image fun i => toLex (virtualHash hash a i, a)

def ordered (S : Finset String) : List (UInt32 ×ₗ String) := (placesOf hash virtualNodes S).sort (· ≤ ·)

/-- The owner of the first virtual node at or after the partition's hash, going on at the smallest one after the
largest; and the owner of the next one that belongs to another node. -/
def reference (S : Finset String) (partitionID : UInt32) : String × String :=
  firstTwo "" ((clockwise (fun x => (ofLex x).1) (hash s!"partition-{partitionID}") (ordered hash virtualNodes S)).map
    fun x => (ofLex x).2)

end

variable {hash : String → UInt32} {v : Nat} {S : Finset String} {a : String} {ch : ConsistentHash}

theorem mem_placesOf {x : UInt32 ×ₗ String} :
    x ∈ placesOf hash v S ↔ (ofLex x).2 ∈ S ∧ ∃ i < v, (ofLex x).1 = virtualHash hash (ofLex x).2 i := by
  simp only [placesOf, Finset.mem_biUnion, Finset.mem_image, Finset.mem_range]
  constructor
  · rintro ⟨a, ha, i, hi, rfl⟩
    exact ⟨ha, i, hi, rfl⟩
  · rintro ⟨ha, i, hi, hx⟩
    exact ⟨_, ha, i, hi, by rw [← hx]; rfl⟩

theorem mem_ordered {x : UInt32 ×ₗ String} : x ∈ ordered hash v S ↔ x ∈ placesOf hash v S := Finset.mem_sort _

theorem nodup_ordered : (ordered hash v S).Nodup := Finset.sort_nodup _ _

theorem sorted_ordered : (ordered hash v S).Pairwise (· ≤ ·) := Finset.pairwise_sort _ _

theorem sorted_hashes : (ordered hash v S).Pairwise fun x y => (ofLex x).1 ≤ (ofLex y).1 :=
  sorted_ordered.imp fun h => Prod.Lex.monotone_fst_ofLex h

/-- **The places of some of the nodes** are in the same order without the others. -/
theorem filter_ordered_owners (p : String → Bool) :
    (ordered hash v S).filter (fun x => p (ofLex x).2) = ordered hash v (S.filter fun a => p a = true) := by
  apply List.Perm.eq_of_pairwise' (r := (· ≤ ·)) (sorted_ordered.filter _) sorted_ordered
  rw [List.perm_ext_iff_of_nodup (nodup_ordered.filter _) nodup_ordered]
  intro x
  simp only [List.mem_filter, mem_ordered, mem_placesOf, Finset.mem_filter]
  tauto

theorem filter_ne_eq_erase (S : Finset String) (a : String) : (S.filter fun b => decide (b ≠ a) = true) = S.erase a := by
  simp only [decide_eq_true_eq]
  exact Finset.filter_ne' S a

/-- **Without the places of one node** the list is that of the other nodes. -/
theorem filter_ordered (a : String) :
    (ordered hash v S).filter (fun x => decide ((ofLex x).2 ≠ a)) = ordered hash v (S.erase a) := by
  rw [filter_ordered_owners fun b => decide (b ≠ a), filter_ne_eq_erase]

/-- The places of one more node. -/
theorem perm_ordered_insert (ha : a ∉ S)
    (hinj : ∀ i < v, ∀ j < v, virtualHash hash a i = virtualHash hash a j → i = j) :
    (ordered hash v (insert a S)).Perm
      (ordered hash v S ++ (List.range v).map fun i => toLex (virtualHash hash a i, a)) := by
  have hnew : ((List.range v).map fun i => (toLex (virtualHash hash a i, a) : UInt32 ×ₗ String)).Nodup := by
    refine List.Nodup.map_on ?_ List.nodup_range
    intro i hi j hj hij
    have hfst : virtualHash hash a i = virtualHash hash a j := congrArg (fun x => (ofLex x).1) hij
    exact hinj i (List.mem_range.1 hi) j (List.mem_range.1 hj) hfst
  have hdisj : (ordered hash v S).Disjoint ((List.range v).map fun i => toLex (virtualHash hash a i, a)) := by
    intro x hx hx'
    obtain ⟨i, -, rfl⟩ := List.mem_map.1 hx'
    exact ha (mem_placesOf.1 (mem_ordered.1 hx)).1
  rw [List.perm_ext_iff_of_nodup nodup_ordered (nodup_ordered.append hnew hdisj)]
  intro x
  simp only [List.mem_append, mem_ordered, mem_placesOf, Finset.mem_insert, List.mem_map, List.mem_range]
  constructor
  · rintro ⟨rfl | hS, i, hi, hx⟩
    · exact .inr ⟨i, hi, by rw [← hx]; rfl⟩
    · exact .inl ⟨hS, i, hi, hx⟩
  · rintro (⟨hS, i, hi, hx⟩ | ⟨i, hi, rfl⟩)
    · exact ⟨.inr hS, i, hi, hx⟩
    · exact ⟨.inl rfl, i, hi, rfl⟩

/-! ## The ring is the reference's list -/

/-- The ring holds the virtual nodes of exactly the nodes in `S`. -/
structure Covers (hash : String → UInt32) (v : Nat) (S : Finset String) (ch : ConsistentHash) : Prop where
  virtualNodes : ch.virtualNodes = v
  nodes        : ∀ b, ch.hasNode b = true ↔ b ∈ S
  ring         : ch.ring = (ordered hash v S).map fun x => (ofLex x).1
  owners       : ∀ h b, ch.nodeMap.get h = some b ↔ toLex (h, b) ∈ placesOf hash v S

theorem covers_empty (virtualNodes : Int) :
    Covers hash (newConsistentHash virtualNodes).virtualNodes ∅ (newConsistentHash virtualNodes) where
  virtualNodes := rfl
  nodes := by simp [newConsistentHash, ConsistentHash.hasNode, OrdMap.get_empty]
  ring := by simp [newConsistentHash, ordered, placesOf]
  owners := by simp [newConsistentHash, OrdMap.get_empty, placesOf]

theorem Covers.addNode {T : String → Prop} (hc : Covers hash v S ch) (hd : DistinctLabels hash v T) (hS : ∀ b ∈ S, T b)
    (ha : T a) : Covers hash v (insert a S) (ch.addNode hash a) := by
  by_cases hin : ch.hasNode a = true
  · rw [ConsistentHash.addNode_of_hasNode hin, Finset.insert_eq_of_mem ((hc.nodes a).1 hin)]
    exact hc
  · obtain ⟨hring, hmap, hnode, hvirt⟩ := ConsistentHash.addNode_spec hash (Bool.eq_false_iff.2 hin)
    have haS : a ∉ S := fun h => hin ((hc.nodes a).2 h)
    rw [hc.virtualNodes] at hring hmap
    refine ⟨hvirt.trans hc.virtualNodes, fun b => by rw [hnode, hc.nodes, Finset.mem_insert], ?_, fun h b => ?_⟩
    · -- both sides are sorted, and have the same hashes
      apply List.Perm.eq_of_pairwise' (r := (· ≤ ·))
      · rw [hring]
        exact List.pairwise_insertionSort _ _
      · exact List.pairwise_map.2 sorted_hashes
      · have hperm := (perm_ordered_insert haS fun i hi j hj hij => (hd a a ha ha i hi j hj hij).2).map
          (fun x : UInt32 ×ₗ String => (ofLex x).1)
        rw [List.map_append, List.map_map] at hperm
        rw [hring, hc.ring]
        exact (List.perm_insertionSort _ _).trans hperm.symm
    · rw [hmap, mem_placesOf, Finset.mem_insert]
      simp only [List.mem_map, List.mem_range, ofLex_toLex]
      split_ifs with hnew
      · obtain ⟨i, hi, rfl⟩ := hnew
        constructor
        · intro hab
          cases hab
          exact ⟨.inl rfl, i, hi, rfl⟩
        · rintro ⟨rfl | hb, j, hj, hij⟩
          · rfl
          · rw [(hd a b ha (hS b hb) i hi j hj hij).1]
      · rw [hc.owners, mem_placesOf]
        constructor
        · rintro ⟨hb, i, hi, hx⟩
          exact ⟨.inr hb, i, hi, hx⟩
        · rintro ⟨rfl | hb, i, hi, hx⟩
          · exact absurd ⟨i, hi, hx.symm⟩ hnew
          · exact ⟨hb, i, hi, hx⟩

theorem Covers.owner_of_mem (hc : Covers hash v S ch) {x : UInt32 ×ₗ String} (hx : x ∈ ordered hash v S) :
    ch.nodeMap.get (ofLex x).1 = some (ofLex x).2 :=
  (hc.owners _ _).2 (mem_ordered.1 hx)

/-- With no collision no hash is in the ring twice. -/
theorem Covers.nodup {T : String → Prop} (hc : Covers hash v S ch) (hd : DistinctLabels hash v T) (hS : ∀ b ∈ S, T b) :
    ch.ring.Nodup := by
  rw [hc.ring]
  refine List.Nodup.map_on ?_ nodup_ordered
  intro x hx y hy hxy
  obtain ⟨hxS, i, hi, hxi⟩ := mem_placesOf.1 (mem_ordered.1 hx)
  obtain ⟨hyS, j, hj, hyj⟩ := mem_placesOf.1 (mem_ordered.1 hy)
  have howner := (hd _ _ (hS _ hxS) (hS _ hyS) i hi j hj (by rw [← hxi, ← hyj, hxy])).1
  exact ofLex.injective (Prod.ext hxy howner)

/-- The loop of `RemoveNode` where no hash is there twice. -/
theorem ConsistentHash.foldl_removeVirtual_nodup : ∀ {hs : List UInt32} (acc : List UInt32 × OrdMap UInt32 String),
    hs.Nodup → (hs.foldl (removeVirtual a) acc).1 =
      acc.1 ++ hs.filter fun h => decide ((acc.2.get h).getD "" ≠ a)
  | [], acc, _ => by simp
  | h :: hs, acc, hnd => by
    obtain ⟨hnot, hnd⟩ := List.nodup_cons.1 hnd
    rw [List.foldl_cons, foldl_removeVirtual_nodup _ hnd]
    by_cases hown : (acc.2.get h).getD "" = a
    · have hstep : removeVirtual a acc h = (acc.1, acc.2.erase h) := by simp [removeVirtual, hown]
      have hrest : hs.filter (fun x => decide (((acc.2.erase h).get x).getD "" ≠ a)) =
          hs.filter fun x => decide ((acc.2.get x).getD "" ≠ a) := by
        refine List.filter_congr fun x hx => ?_
        rw [OrdMap.get_erase, if_neg (ne_of_mem_of_not_mem hx hnot)]
      rw [hstep, hrest, List.filter_cons_of_neg (by simpa using hown)]
    · have hstep : removeVirtual a acc h = (acc.1 ++ [h], acc.2) := by simp [removeVirtual, hown]
      rw [hstep, List.filter_cons_of_pos (by simpa using hown), List.append_assoc]
      rfl

theorem Covers.removeNode {T : String → Prop} (hc : Covers hash v S ch) (hd : DistinctLabels hash v T)
    (hS : ∀ b ∈ S, T b) (a : String) : Covers hash v (S.erase a) (ch.removeNode a) := by
  by_cases hin : ch.hasNode a = true
  · obtain ⟨-, hmap, hnode, hvirt⟩ := ConsistentHash.removeNode_spec hin
    refine ⟨hvirt.trans hc.virtualNodes, fun b => by rw [hnode, hc.nodes, Finset.mem_erase], ?_, fun h b => ?_⟩
    · have hring : (ch.removeNode a).ring = ch.ring.filter fun h => decide ((ch.nodeMap.get h).getD "" ≠ a) := by
        rw [ConsistentHash.removeNode, hin]
        exact ConsistentHash.foldl_removeVirtual_nodup ([], ch.nodeMap) (hc.nodup hd hS)
      rw [hring, hc.ring, List.filter_map, ← filter_ordered]
      congr 1
      refine List.filter_congr fun x hx => ?_
      rw [Function.comp_apply, hc.owner_of_mem hx]
      rfl
    · rw [hmap, mem_placesOf, Finset.mem_erase]
      have hold := hc.owners h b
      rw [mem_placesOf] at hold
      simp only [ofLex_toLex] at hold ⊢
      split_ifs with hdrop
      · simp only [false_iff]
        rintro ⟨⟨hba, hb⟩, hi⟩
        rw [hold.2 ⟨hb, hi⟩] at hdrop
        exact hba hdrop.2
      · rw [hold]
        constructor
        · rintro ⟨hb, hi⟩
          refine ⟨⟨?_, hb⟩, hi⟩
          rintro rfl
          refine hdrop ⟨?_, by rw [hold.2 ⟨hb, hi⟩]; rfl⟩
          rw [hc.ring]
          exact List.mem_map.2 ⟨toLex (h, b), mem_ordered.2 (mem_placesOf.2 ⟨hb, hi⟩), rfl⟩
        · rintro ⟨⟨-, hb⟩, hi⟩
          exact ⟨hb, hi⟩
  · rw [ConsistentHash.removeNode_of_not_hasNode (Bool.eq_false_iff.2 hin),
      Finset.erase_eq_of_notMem fun h => hin ((hc.nodes a).2 h)]
    exact hc

/-- **However the nodes came and went**, the ring is that of the nodes that are left. -/
theorem covers_run {T : String → Prop} (hd : DistinctLabels hash v T) : ∀ {ops : List RingOp} {S : Finset String}
    {ch ch' : ConsistentHash}, Covers hash v S ch → (∀ b ∈ S, T b) → (∀ b, RingOp.addNode b ∈ ops → T b) →
    run (ringStep hash) ch ops = some ch' →
    Covers hash v (ops.foldl RingOp.onNodes S) ch' ∧ ∀ b ∈ ops.foldl RingOp.onNodes S, T b
  | [], S, ch, ch', hc, hS, _, hrun => by
    cases hrun
    exact ⟨hc, hS⟩
  | op :: ops, S, ch, ch', hc, hS, hops, hrun => by
    obtain ⟨mid, hstep, hrest⟩ := run_cons.1 hrun
    have hlater : ∀ b, RingOp.addNode b ∈ ops → T b := fun b hb => hops b (List.mem_cons_of_mem _ hb)
    rw [List.foldl_cons]
    cases op with
    | addNode a =>
      cases hstep
      have ha : T a := hops a List.mem_cons_self
      refine covers_run hd (hc.addNode hd hS ha) (fun b hb => ?_) hlater hrest
      rcases Finset.mem_insert.1 hb with rfl | hb
      · exact ha
      · exact hS b hb
    | removeNode a =>
      cases hstep
      exact covers_run hd (hc.removeNode hd hS a) (fun b hb => hS b (Finset.mem_of_mem_erase hb)) hlater hrest

/-! ## Lookups -/

/-- **`GetNodes` reads the list clockwise.** -/
theorem Covers.getNodes (hc : Covers hash v S ch) (p : UInt32) : ch.getNodes hash p = reference hash v S p := by
  have hlen : ch.ring.length = (ordered hash v S).length := by rw [hc.ring, List.length_map]
  by_cases hnil : ordered hash v S = []
  · simp [ConsistentHash.getNodes, reference, hc.ring, hnil, clockwise, firstTwo]
  · have hne : ch.ring ≠ [] := by rw [hc.ring]; simpa using hnil
    have howner : ∀ i (hi : i < (ordered hash v S).length), ch.owner i = (ofLex (ordered hash v S)[i]).2 := by
      intro i hi
      have hat : ch.ring.getD i 0 = (ofLex (ordered hash v S)[i]).1 := by
        rw [List.getD_eq_getElem _ _ (by omega)]
        simp only [hc.ring, List.getElem_map]
      rw [ConsistentHash.owner, hat, hc.owner_of_mem (List.getElem_mem hi)]
      rfl
    have hsearch : clockwise (fun x => (ofLex x).1) (hash s!"partition-{p}") (ordered hash v S) =
        (ordered hash v S).rotate (ch.search (hash s!"partition-{p}")) := by
      rw [clockwise_eq_rotate sorted_hashes, ConsistentHash.search, hlen]
      rw [hc.ring, List.findIdx_map]
      split_ifs with hwrap
      · -- no place at or after the partition's: the smallest one
        have hend := le_antisymm List.findIdx_le_length hwrap
        exact (congrArg _ hend).trans ((List.rotate_length _).trans (List.rotate_zero _).symm)
      · rfl
    have hidx := ConsistentHash.search_lt hne (hash s!"partition-{p}")
    rw [reference, hsearch, map_walk (ordered hash v S) (fun x => (ofLex x).2) ch.owner howner (hlen ▸ hidx), ← hlen]
    simp [ConsistentHash.getNodes, hne, firstTwo]

theorem virtualNodes_pos (virtualNodes : Int) : 0 < (newConsistentHash virtualNodes).virtualNodes := by
  simp only [newConsistentHash, defaultVirtualNodes]
  split_ifs <;> omega

/-- The owners one meets going clockwise from `x`. -/
def ownersFrom (hash : String → UInt32) (v : Nat) (S : Finset String) (x : UInt32) : List String :=
  (clockwise (fun x => (ofLex x).1) x (ordered hash v S)).map fun x => (ofLex x).2

theorem reference_eq (p : UInt32) : reference hash v S p = firstTwo "" (ownersFrom hash v S (hash s!"partition-{p}")) := rfl

/-- They are the nodes of the set. -/
theorem mem_ownersFrom (hv : 0 < v) (x : UInt32) : a ∈ ownersFrom hash v S x ↔ a ∈ S := by
  simp only [ownersFrom, List.mem_map, mem_clockwise, mem_ordered, mem_placesOf]
  constructor
  · rintro ⟨y, ⟨hy, -⟩, rfl⟩
    exact hy
  · intro ha
    exact ⟨toLex (virtualHash hash a 0, a), ⟨ha, 0, hv, rfl⟩, rfl⟩

/-- Some of the nodes stand on the circle as they do among all. -/
theorem filter_ownersFrom_nodes (x : UInt32) (p : String → Bool) :
    (ownersFrom hash v S x).filter p = ownersFrom hash v (S.filter fun a => p a = true) x := by
  rw [ownersFrom, ownersFrom, List.filter_map, ← filter_ordered_owners, ← filter_clockwise]
  rfl

/-- Adding or removing a node changes the owners on the circle only there. -/
theorem filter_ownersFrom (x : UInt32) :
    (ownersFrom hash v S x).filter (fun b => decide (b ≠ a)) = ownersFrom hash v (S.erase a) x := by
  rw [filter_ownersFrom_nodes x fun b => decide (b ≠ a), filter_ne_eq_erase]

theorem covers_of_run {virtualNodes : Int} {T : String → Prop} {ops : List RingOp}
    (hd : DistinctLabels hash (newConsistentHash virtualNodes).virtualNodes T) (hops : ∀ b, RingOp.addNode b ∈ ops → T b)
    (hrun : run (ringStep hash) (newConsistentHash virtualNodes) ops = some ch) :
    Covers hash (newConsistentHash virtualNodes).virtualNodes (currentNodes ops) ch ∧ ∀ b ∈ currentNodes ops, T b :=
  covers_run hd (covers_empty virtualNodes) (by simp) hops hrun

/-- What a lookup names: current nodes, two different ones as soon as there are two, and no replica before. -/
theorem Covers.lookup (hc : Covers hash v S ch) (hv : 0 < v) (p : UInt32) :
    (S = ∅ → ch.getNodes hash p = ("", "")) ∧ (∀ a, S = {a} → ch.getNodes hash p = (a, "")) ∧
    (2 ≤ S.card → (ch.getNodes hash p).1 ∈ S ∧ (ch.getNodes hash p).2 ∈ S ∧
      (ch.getNodes hash p).2 ≠ (ch.getNodes hash p).1) := by
  rw [hc.getNodes, reference_eq]
  generalize hl : ownersFrom hash v S (hash s!"partition-{p}") = l
  have hmem : ∀ b, b ∈ l ↔ b ∈ S := fun b => by rw [← hl]; exact mem_ownersFrom hv _
  have hfst : ∀ {a}, a ∈ S → (firstTwo "" l).1 ∈ S := fun ha =>
    (hmem _).1 (fst_firstTwo (List.ne_nil_of_mem ((hmem _).2 ha)))
  refine ⟨?_, ?_, ?_⟩
  · rintro rfl
    rw [List.eq_nil_iff_forall_not_mem.2 fun b hb => Finset.notMem_empty b ((hmem b).1 hb)]
    rfl
  · rintro a rfl
    have ha : (firstTwo "" l).1 = a := Finset.mem_singleton.1 (hfst (Finset.mem_singleton_self a))
    refine Prod.ext ha (snd_firstTwo_eq fun b hb => ?_)
    rw [ha]
    exact Finset.mem_singleton.1 ((hmem b).1 hb)
  · intro hcard
    obtain ⟨b, hb, hne⟩ := Finset.exists_mem_ne hcard (firstTwo "" l).1
    obtain ⟨hsnd, hdiff⟩ := snd_firstTwo ((hmem b).2 hb) hne
    exact ⟨hfst hb, (hmem _).1 hsnd, hdiff⟩

/-- **A lookup depends on the current nodes alone**: it is the reference, and names current nodes. -/
theorem getNodes_eq_reference (hash : String → UInt32) (virtualNodes : Int) {ops : List RingOp} {ch : ConsistentHash}
    (hd : DistinctLabels hash (newConsistentHash virtualNodes).virtualNodes fun a => .addNode a ∈ ops)
    (hrun : run (ringStep hash) (newConsistentHash virtualNodes) ops = some ch) (p : UInt32) :
    ch.getNodes hash p = reference hash (newConsistentHash virtualNodes).virtualNodes (currentNodes ops) p ∧
    (currentNodes ops = ∅ → ch.getNodes hash p = ("", "")) ∧
    (∀ a, currentNodes ops = {a} → ch.getNodes hash p = (a, "")) ∧
    (2 ≤ (currentNodes ops).card →
      (ch.getNodes hash p).1 ∈ currentNodes ops ∧ (ch.getNodes hash p).2 ∈ currentNodes ops ∧
      (ch.getNodes hash p).2 ≠ (ch.getNodes hash p).1) := by
  have hc := (covers_of_run hd (fun _ hb => hb) hrun).1
  exact ⟨hc.getNodes p, hc.lookup (virtualNodes_pos virtualNodes) p⟩

/-- With one virtual node for each address it is enough that these differ. -/
theorem distinctLabels_one {T : String → Prop} {l : List String} (hT : ∀ a, T a → a ∈ l)
    (h : ∀ a ∈ l, ∀ b ∈ l, virtualHash hash a 0 = virtualHash hash b 0 → a = b) : DistinctLabels hash 1 T := by
  intro a b ha hb i hi j hj hij
  obtain rfl : i = 0 := by omega
  obtain rfl : j = 0 := by omega
  exact ⟨h a (hT a ha) b (hT b hb) hij, rfl⟩

/-- With the number a server uses, that all the places do. -/
theorem distinctLabels_of_places {addrs : List String} (hnodup : (places hash addrs).Nodup) :
    DistinctLabels hash defaultVirtualNodes (· ∈ addrs) := by
  intro a b ha hb i hi j hj hij
  obtain rfl := collisionFree_of_places hnodup a ha b hb i hi j hj hij
  have hone := (List.nodup_flatMap.1 hnodup).1 a ha
  exact ⟨rfl, List.inj_on_of_nodup_map hone (List.mem_range.2 hi) (List.mem_range.2 hj) hij⟩

theorem run_addTwo (a b : String) : run (ringStep hash) (newConsistentHash 1) [.addNode a, .addNode b] =
    some (((newConsistentHash 1).addNode hash a).addNode hash b) :=
  run_cons.2 ⟨_, rfl, run_cons.2 ⟨_, rfl, rfl⟩⟩

theorem distinctLabels_ab : DistinctLabels hashKey 1 fun a => .addNode a ∈ [RingOp.addNode "A", .addNode "B"] := by
  refine distinctLabels_one (l := ["A", "B"]) (by simp) ?_
  rw [hashKey_eq]
  decide +kernel

/-- Two nodes. -/
theorem getNodes_eq_reference_ab :
    ∃ ch, run (ringStep hashKey) (newConsistentHash 1) [.addNode "A", .addNode "B"] = some ch ∧
      ch.getNodes hashKey 0 = reference hashKey 1 {"B", "A"} 0 ∧
      (ch.getNodes hashKey 0).1 ∈ ({"B", "A"} : Finset String) ∧
      (ch.getNodes hashKey 0).2 ∈ ({"B", "A"} : Finset String) ∧
      (ch.getNodes hashKey 0).2 ≠ (ch.getNodes hashKey 0).1 := by
  obtain ⟨href, -, -, htwo⟩ := getNodes_eq_reference hashKey 1 distinctLabels_ab (run_addTwo "A" "B") 0
  exact ⟨_, run_addTwo "A" "B", href, htwo (by decide)⟩

/-- The ring of the empty address and `A`, in the order of its hashes. -/
theorem ordered_empty_a : ordered hashKey 1 {"A", ""} = [toLex (376011048, "A"), toLex (3651753266, "")] := by
  have hA : virtualHash hashKey "A" 0 = 376011048 := by
    rw [hashKey_eq]
    decide +kernel
  have hempty : virtualHash hashKey "" 0 = 3651753266 := by
    rw [hashKey_eq]
    decide +kernel
  have hlt : (376011048 : UInt32) < 3651753266 := by decide
  apply List.Perm.eq_of_pairwise' (r := (· ≤ ·)) sorted_ordered
  · simp [Prod.Lex.le_iff, hlt]
  · rw [List.perm_ext_iff_of_nodup nodup_ordered (by simp)]
    intro x
    simp only [mem_ordered, placesOf, Finset.mem_biUnion, Finset.mem_insert, Finset.mem_singleton, Finset.range_one,
      Finset.image_singleton, List.mem_cons, List.not_mem_nil, or_false]
    constructor
    · rintro ⟨a, rfl | rfl, rfl⟩
      · exact .inl (by rw [hA])
      · exact .inr (by rw [hempty])
    · rintro (rfl | rfl)
      · exact ⟨"A", .inl rfl, by rw [hA]⟩
      · exact ⟨"", .inr rfl, by rw [hempty]⟩

/-- **No replica**: with one node there is none; with two it is empty where one of the two has the empty address. -/
theorem replica_is_empty :
    ((newConsistentHash 1).addNode hashKey "A").getNodes hashKey 3 = ("A", "") ∧
    "" ∉ currentNodes [.addNode "A"] ∧
    DistinctLabels hashKey 1 (fun a => .addNode a ∈ [RingOp.addNode "", .addNode "A"]) ∧
    (currentNodes [.addNode "", .addNode "A"]).card = 2 ∧
    (((newConsistentHash 1).addNode hashKey "").addNode hashKey "A").getNodes hashKey 3 = ("A", "") := by
  have hone : DistinctLabels hashKey 1 fun a => a ∈ ["A"] :=
    distinctLabels_one (fun _ h => h) (by simp)
  have htwo : DistinctLabels hashKey 1 fun a => .addNode a ∈ [RingOp.addNode "", .addNode "A"] := by
    refine distinctLabels_one (l := ["", "A"]) (by simp) ?_
    rw [hashKey_eq]
    decide +kernel
  have hsole := (@covers_empty hashKey 1).addNode hone (by simp) (List.mem_singleton.2 rfl)
  have hpair := (covers_of_run htwo (fun _ h => h) (run_addTwo "" "A")).1
  have hstart : hashKey s!"partition-{(3 : UInt32)}" = 4186345779 := by
    rw [hashKey_eq]
    decide +kernel
  refine ⟨?_, by decide, htwo, by decide, ?_⟩
  · exact (hsole.lookup (by decide) 3).2.1 "A" rfl
  · rw [hpair.getNodes]
    show reference hashKey 1 {"A", ""} 3 = _
    rw [reference, ordered_empty_a, hstart]
    decide

/-- **Minimal movement**: a node that joins takes over a partition's primary, whose node then keeps the replica, or its
replica, or neither; one that leaves gives up its own places and no other node moves. -/
theorem minimal_movement (hash : String → UInt32) (virtualNodes : Int) {ops : List RingOp} {ch : ConsistentHash}
    (n : String)
    (hd : DistinctLabels hash (newConsistentHash virtualNodes).virtualNodes fun a => a = n ∨ .addNode a ∈ ops)
    (hrun : run (ringStep hash) (newConsistentHash virtualNodes) ops = some ch) (p : UInt32) :
    ((ch.addNode hash n).getNodes hash p = ch.getNodes hash p ∨
      (ch.addNode hash n).getNodes hash p = (n, (ch.getNodes hash p).1) ∨
      (ch.addNode hash n).getNodes hash p = ((ch.getNodes hash p).1, n)) ∧
    ((ch.getNodes hash p).1 ≠ n → (ch.getNodes hash p).2 ≠ n →
      (ch.removeNode n).getNodes hash p = ch.getNodes hash p) ∧
    ((ch.getNodes hash p).1 = n → ((ch.removeNode n).getNodes hash p).1 = (ch.getNodes hash p).2) ∧
    ((ch.getNodes hash p).2 = n → ((ch.removeNode n).getNodes hash p).1 = (ch.getNodes hash p).1) := by
  obtain ⟨hc, hS⟩ := covers_of_run hd (fun _ hb => .inr hb) hrun
  rw [(hc.addNode hd hS (.inl rfl)).getNodes, (hc.removeNode hd hS n).getNodes, hc.getNodes]
  generalize currentNodes ops = S at hc hS
  generalize (newConsistentHash virtualNodes).virtualNodes = v
  simp only [reference_eq]
  obtain ⟨hstays, hprimary, hreplica⟩ := filter_firstTwo (d := "") n (ownersFrom hash v S (hash s!"partition-{p}"))
  rw [filter_ownersFrom] at hstays hprimary hreplica
  refine ⟨?_, hstays, hprimary, fun hsnd => ?_⟩
  · by_cases hin : n ∈ S
    · rw [Finset.insert_eq_of_mem hin]
      exact .inl rfl
    · have hmoves := firstTwo_filter (d := "") n (ownersFrom hash v (insert n S) (hash s!"partition-{p}"))
      rw [filter_ownersFrom, Finset.erase_insert hin] at hmoves
      exact hmoves
  · by_cases hfst : (firstTwo "" (ownersFrom hash v S (hash s!"partition-{p}"))).1 = n
    · exact (hprimary hfst).trans (hsnd.trans hfst.symm)
    · exact hreplica hfst

/-- `A` in the ring, `B` joining. -/
theorem minimal_movement_ab :
    ∃ ch, run (ringStep hashKey) (newConsistentHash 1) [.addNode "A"] = some ch ∧
      ((ch.addNode hashKey "B").getNodes hashKey 0 = ch.getNodes hashKey 0 ∨
        (ch.addNode hashKey "B").getNodes hashKey 0 = ("B", (ch.getNodes hashKey 0).1) ∨
        (ch.addNode hashKey "B").getNodes hashKey 0 = ((ch.getNodes hashKey 0).1, "B")) := by
  have hd : DistinctLabels hashKey 1 fun a => a = "B" ∨ .addNode a ∈ [RingOp.addNode "A"] := by
    refine distinctLabels_one (l := ["A", "B"]) (by simp [or_comm]) ?_
    rw [hashKey_eq]
    decide +kernel
  have hrun : run (ringStep hashKey) (newConsistentHash 1) [.addNode "A"] =
      some ((newConsistentHash 1).addNode hashKey "A") := run_cons.2 ⟨_, rfl, rfl⟩
  exact ⟨_, hrun, (minimal_movement hashKey 1 "B" hd hrun 0).1⟩

/-! ## The ring of a node list -/

theorem run_addNodes (addrs : List String) (ch : ConsistentHash) :
    run (ringStep hash) ch (addrs.map .addNode) = some (addrs.foldl (ConsistentHash.addNode hash) ch) := by
  induction addrs generalizing ch with
  | nil => rfl
  | cons a addrs ih => exact run_cons.2 ⟨_, rfl, ih _⟩

theorem foldl_onNodes_addNode (addrs : List String) (S : Finset String) :
    (addrs.map .addNode).foldl RingOp.onNodes S = addrs.toFinset ∪ S := by
  induction addrs generalizing S with
  | nil => simp
  | cons a addrs ih => simp [RingOp.onNodes, ih]

/-- The ring that an allocation or a rebalance builds. -/
theorem covers_buildRing {addrs : List String} (hd : DistinctLabels hash defaultVirtualNodes (· ∈ addrs)) :
    Covers hash defaultVirtualNodes addrs.toFinset (buildRing hash addrs) := by
  have hadds : ∀ b, RingOp.addNode b ∈ addrs.map .addNode → b ∈ addrs := by simp
  have hrun : run (ringStep hash) (newConsistentHash defaultVirtualNodes) (addrs.map .addNode) =
      some (buildRing hash addrs) := run_addNodes addrs _
  obtain ⟨hc, -⟩ := covers_of_run hd hadds hrun
  rwa [currentNodes, foldl_onNodes_addNode, Finset.union_empty] at hc

/-- **A ring with fewer nodes** gives a partition the old primary where that one is left, else the old replica where that
one is. -/
theorem primary_of_fewer {addrs online : List String} (hd : DistinctLabels hash defaultVirtualNodes (· ∈ addrs))
    (hsub : ∀ a ∈ online, a ∈ addrs) (p : UInt32) :
    (((buildRing hash addrs).getNodes hash p).1 ∈ online →
      ((buildRing hash online).getNodes hash p).1 = ((buildRing hash addrs).getNodes hash p).1) ∧
    (((buildRing hash addrs).getNodes hash p).1 ∉ online → ((buildRing hash addrs).getNodes hash p).2 ∈ online →
      ((buildRing hash online).getNodes hash p).1 = ((buildRing hash addrs).getNodes hash p).2) := by
  have hd' : DistinctLabels hash defaultVirtualNodes (· ∈ online) := fun a b ha hb => hd a b (hsub a ha) (hsub b hb)
  have honline : addrs.toFinset.filter (fun a => decide (a ∈ online) = true) = online.toFinset := by
    ext a
    simp only [Finset.mem_filter, List.mem_toFinset, decide_eq_true_eq]
    exact ⟨And.right, fun ha => ⟨hsub a ha, ha⟩⟩
  rw [(covers_buildRing hd).getNodes, (covers_buildRing hd').getNodes, reference_eq, reference_eq, ← honline,
    ← filter_ownersFrom_nodes _ fun a => decide (a ∈ online)]
  have hin : ∀ {a}, a ∈ online → a ∈ ownersFrom hash defaultVirtualNodes addrs.toFinset (hash s!"partition-{p}") :=
    fun ha => (mem_ownersFrom (by decide) _).2 (List.mem_toFinset.2 (hsub _ ha))
  obtain ⟨hfst, hsnd⟩ := fst_firstTwo_of_filter (d := "") (fun a => decide (a ∈ online))
    (l := ownersFrom hash defaultVirtualNodes addrs.toFinset (hash s!"partition-{p}"))
  exact ⟨fun h => hfst (hin h) (by simpa using h), fun h h' => hsnd (hin h') (by simpa using h) (by simpa using h')⟩

end RocksKV.Metadata
