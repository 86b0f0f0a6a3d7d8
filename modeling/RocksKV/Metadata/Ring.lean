import RocksKV.Lib.Run
import RocksKV.Metadata.ConsistentHash
/-!
# A ring that nodes join and leave (`pkg/metadata/consistent_hash.go:39-127`)

| here | there |
| --- | --- |
| `RingOp`, `ringStep` | `AddNode` (`:39-60`) and `RemoveNode` (`:63-83`), in any order and repeated |
| `Integrity`          | every hash of `ring` has an owner in `nodeMap`, and that owner is in `nodes` |
| `Unshared`           | the node that leaves owns no hash that is in `ring` twice |

Two virtual nodes with one hash put it into `ring` twice and into `nodeMap` once, for the one added last. **Bug**:
`RemoveNode` drops the hash where it meets it first and deletes its entry at once; at the second copy the lookup gives
`""`, which is not the node's address, and the copy stays in the ring without an owner (`shared_hash_loses_owner`).
-/

namespace RocksKV.Metadata

open Lib

inductive RingOp
  | addNode (nodeAddr : String)
  | removeNode (nodeAddr : String)
  deriving DecidableEq, Repr

def ringStep (hash : String → UInt32) (ch : ConsistentHash) : RingOp → Option ConsistentHash
  | .addNode nodeAddr => some (ch.addNode hash nodeAddr)
  | .removeNode nodeAddr => some (ch.removeNode nodeAddr)

namespace ConsistentHash

variable {hash : String → UInt32} {ch : ConsistentHash} {a : String}

/-! ## What the two operations do -/

variable (hash) in
/-- **`AddNode`** of a node that is not there. -/
theorem addNode_spec (h : ch.hasNode a = false) :
    (ch.addNode hash a).ring =
      (ch.ring ++ (List.range ch.virtualNodes).map (virtualHash hash a)).insertionSort (· ≤ ·) ∧
    (∀ x, (ch.addNode hash a).nodeMap.get x =
      if x ∈ (List.range ch.virtualNodes).map (virtualHash hash a) then some a else ch.nodeMap.get x) ∧
    (∀ b, (ch.addNode hash a).hasNode b = true ↔ b = a ∨ ch.hasNode b = true) ∧
    (ch.addNode hash a).virtualNodes = ch.virtualNodes := by
  obtain ⟨hring, hmap, hnodes, hvirt⟩ := @foldl_addVirtual hash a (List.range ch.virtualNodes)
    { ch with nodes := ch.nodes.insert a true }
  rw [addNode, h]
  refine ⟨by rw [← hring]; rfl, hmap, fun b => ?_, hvirt⟩
  have hb : (ch.addNode hash a).nodes = ch.nodes.insert a true := by rw [addNode, h]; exact hnodes
  rw [addNode, h] at hb
  rw [hasNode, hb, OrdMap.get_insert, hasNode]
  by_cases hba : b = a <;> simp [hba]

/-- The loop of `RemoveNode`. A hash it keeps is another node's, or one it has met before. -/
theorem foldl_removeVirtual : ∀ (hs : List UInt32) (acc : List UInt32 × OrdMap UInt32 String),
    (∀ x, (hs.foldl (removeVirtual a) acc).2.get x =
      if x ∈ hs ∧ (acc.2.get x).getD "" = a then none else acc.2.get x) ∧
    ∀ x, x ∈ (hs.foldl (removeVirtual a) acc).1 ↔
      x ∈ acc.1 ∨ x ∈ hs ∧ ((acc.2.get x).getD "" ≠ a ∨ a ≠ "" ∧ 2 ≤ hs.count x)
  | [], acc => by simp
  | h :: hs, acc => by
    obtain ⟨hmap, hmem⟩ := foldl_removeVirtual hs (removeVirtual a acc h)
    rw [List.foldl_cons]
    by_cases hown : (acc.2.get h).getD "" = a
    · have hstep : removeVirtual a acc h = (acc.1, acc.2.erase h) := by simp [removeVirtual, hown]
      rw [hstep] at hmap hmem ⊢
      constructor
      · intro x
        rw [hmap, OrdMap.get_erase]
        by_cases hx : x = h
        · subst hx
          simp [hown]
        · simp [hx]
      · intro x
        rw [hmem, OrdMap.get_erase]
        by_cases hx : x = h
        · subst hx
          have hcount : x ∈ hs ↔ 1 ≤ hs.count x := List.one_le_count_iff.symm
          simp only [if_true, Option.getD_none, hown, List.mem_cons, true_or, true_and, List.count_cons_self, hcount]
          by_cases ha : a = ""
          · simp [ha]
          · simp only [ne_eq, not_true_eq_false, false_or, ha, not_false_eq_true, true_and, Ne.symm ha]
            constructor
            · rintro (hacc | ⟨hc, -⟩)
              · exact .inl hacc
              · exact .inr (by omega)
            · rintro (hacc | hc)
              · exact .inl hacc
              · exact .inr ⟨by omega, .inl trivial⟩
        · simp [hx, Ne.symm hx]
    · have hstep : removeVirtual a acc h = (acc.1 ++ [h], acc.2) := by simp [removeVirtual, hown]
      rw [hstep] at hmap hmem ⊢
      constructor
      · intro x
        rw [hmap]
        by_cases hx : x = h
        · subst hx
          simp [hown]
        · simp [hx]
      · intro x
        rw [hmem]
        by_cases hx : x = h
        · subst hx
          simp [hown]
        · simp [hx, Ne.symm hx]

/-- **`RemoveNode`** of a node that is there. -/
theorem removeNode_spec (h : ch.hasNode a = true) :
    (∀ x, x ∈ (ch.removeNode a).ring ↔
      x ∈ ch.ring ∧ ((ch.nodeMap.get x).getD "" ≠ a ∨ a ≠ "" ∧ 2 ≤ ch.ring.count x)) ∧
    (∀ x, (ch.removeNode a).nodeMap.get x =
      if x ∈ ch.ring ∧ (ch.nodeMap.get x).getD "" = a then none else ch.nodeMap.get x) ∧
    (∀ b, (ch.removeNode a).hasNode b = true ↔ b ≠ a ∧ ch.hasNode b = true) ∧
    (ch.removeNode a).virtualNodes = ch.virtualNodes := by
  obtain ⟨hmap, hmem⟩ := @foldl_removeVirtual a ch.ring ([], ch.nodeMap)
  rw [removeNode, h]
  refine ⟨fun x => by simpa using hmem x, hmap, fun b => ?_, rfl⟩
  show ((ch.nodes.erase a).get b).getD false = true ↔ _
  rw [OrdMap.get_erase, hasNode]
  by_cases hba : b = a <;> simp [hba]

theorem addNode_of_hasNode (h : ch.hasNode a = true) : ch.addNode hash a = ch := by simp [addNode, h]

theorem removeNode_of_not_hasNode (h : ch.hasNode a = false) : ch.removeNode a = ch := by simp [removeNode, h]

/-- What stays in the ring stays in its order. -/
theorem removeNode_sublist (ch : ConsistentHash) (a : String) : (ch.removeNode a).ring.Sublist ch.ring := by
  have hloop : ∀ (hs : List UInt32) (acc : List UInt32 × OrdMap UInt32 String),
      ∃ l, l.Sublist hs ∧ (hs.foldl (removeVirtual a) acc).1 = acc.1 ++ l := by
    intro hs
    induction hs with
    | nil => exact fun acc => ⟨[], List.Sublist.refl _, by simp⟩
    | cons h hs ih =>
      intro acc
      obtain ⟨l, hl, heq⟩ := ih (removeVirtual a acc h)
      rw [List.foldl_cons, heq]
      unfold removeVirtual
      split_ifs
      · exact ⟨h :: l, hl.cons_cons h, by simp⟩
      · exact ⟨l, hl.cons h, rfl⟩
  unfold removeNode
  split_ifs
  · exact List.Sublist.refl _
  · obtain ⟨l, hl, heq⟩ := hloop ch.ring ([], ch.nodeMap)
    show (ch.ring.foldl (removeVirtual a) ([], ch.nodeMap)).1.Sublist ch.ring
    rw [heq, List.nil_append]
    exact hl

/-- A search for a hash of the ring finds it. -/
theorem search_of_mem (hs : ch.ring.Pairwise (· ≤ ·)) {h : UInt32} (hh : h ∈ ch.ring) : ch.ring.getD (ch.search h) 0 = h := by
  have hlt : (ch.ring.findIdx fun x => decide (h ≤ x)) < ch.ring.length :=
    List.findIdx_lt_length.2 ⟨h, hh, by simp⟩
  have hge : h ≤ ch.ring[ch.ring.findIdx fun x => decide (h ≤ x)] := by simpa using List.findIdx_getElem (w := hlt)
  obtain ⟨k, hk, hplace⟩ := List.getElem_of_mem hh
  have hle : (ch.ring.findIdx fun x => decide (h ≤ x)) ≤ k := by
    by_contra hkidx
    have hno := List.not_of_lt_findIdx (Nat.lt_of_not_le hkidx)
    simp [hplace] at hno
  have hle' := hs.rel_get_of_le (a := ⟨_, hlt⟩) (b := ⟨k, hk⟩) hle
  simp only [List.get_eq_getElem, hplace] at hle'
  rw [search, if_neg (by omega), List.getD_eq_getElem _ _ hlt]
  exact UInt32.le_antisymm hle' hge

/-! ## Integrity -/

def Integrity (ch : ConsistentHash) : Prop :=
  ∀ h ∈ ch.ring, ∃ n, ch.nodeMap.get h = some n ∧ ch.hasNode n = true

theorem Integrity.addNode (hi : ch.Integrity) (a : String) : (ch.addNode hash a).Integrity := by
  by_cases hin : ch.hasNode a = true
  · rwa [addNode_of_hasNode hin]
  · obtain ⟨hring, hmap, hnode, -⟩ := addNode_spec hash (Bool.eq_false_iff.2 hin)
    intro h hh
    rw [hring, List.mem_insertionSort, List.mem_append] at hh
    simp only [hmap, hnode]
    by_cases hnew : h ∈ (List.range ch.virtualNodes).map (virtualHash hash a)
    · exact ⟨a, by rw [if_pos hnew], .inl rfl⟩
    · obtain ⟨n, hn, hmem⟩ := hi h (hh.resolve_right hnew)
      exact ⟨n, by rw [if_neg hnew, hn], .inr hmem⟩

/-- **A node leaves the ring whole exactly when** it owns no hash that is there twice. -/
theorem Integrity.removeNode_iff (hi : ch.Integrity) (ha : a ≠ "") (hin : ch.hasNode a = true) :
    (ch.removeNode a).Integrity ↔ ∀ h ∈ ch.ring, ch.nodeMap.get h = some a → ch.ring.count h ≤ 1 := by
  obtain ⟨hring, hmap, hnode, -⟩ := removeNode_spec hin
  constructor
  · intro hafter h hh hown
    by_contra hcount
    -- the second copy stays, and its entry is gone
    have hstays : h ∈ (ch.removeNode a).ring := (hring h).2 ⟨hh, .inr ⟨ha, by omega⟩⟩
    obtain ⟨n, hn, -⟩ := hafter h hstays
    rw [hmap, if_pos ⟨hh, by simp [hown]⟩] at hn
    cases hn
  · intro honce h hh
    obtain ⟨hmem, hkept⟩ := (hring h).1 hh
    obtain ⟨n, hn, hnodes⟩ := hi h hmem
    have hna : n ≠ a := by
      rintro rfl
      rcases hkept with hother | ⟨-, htwice⟩
      · simp [hn] at hother
      · have := honce h hmem hn
        omega
    refine ⟨n, ?_, (hnode n).2 ⟨hna, hnodes⟩⟩
    rw [hmap, if_neg (by simp [hn, hna]), hn]

/-- Places of a whole ring belong to its nodes. -/
theorem Integrity.owner (hi : ch.Integrity) {idx : Nat} (hidx : idx < ch.ring.length) : ch.hasNode (ch.owner idx) = true := by
  obtain ⟨n, hn, hnode⟩ := hi _ (List.getElem_mem hidx)
  rw [ConsistentHash.owner, List.getD_eq_getElem _ _ hidx, hn]
  exact hnode

theorem getNode_eq (hne : ch.ring ≠ []) (key : String) : ch.getNode hash key = ch.owner (ch.search (hash key)) := by
  simp [getNode, hne]

theorem getNodes_fst_eq (hne : ch.ring ≠ []) (p : UInt32) :
    (ch.getNodes hash p).1 = ch.owner (ch.search (hash s!"partition-{p}")) := by
  simp [getNodes, hne]

end ConsistentHash

theorem integrity_buildRing (hash : String → UInt32) (addrs : List String) : (buildRing hash addrs).Integrity :=
  List.foldlRecOn (motive := ConsistentHash.Integrity) _ _ (fun _ hh => by cases hh) fun _ hi a _ => hi.addNode a

theorem length_addNode (hash : String → UInt32) {ch : ConsistentHash} {a : String} (h : ch.hasNode a = false) :
    (ch.addNode hash a).ring.length = ch.ring.length + ch.virtualNodes := by
  rw [(ConsistentHash.addNode_spec hash h).1, List.length_insertionSort, List.length_append, List.length_map,
    List.length_range]

/-- The first node fills the ring, and the others leave it filled. -/
theorem ring_buildRing_ne_nil (hash : String → UInt32) {addrs : List String} (h : addrs ≠ []) :
    (buildRing hash addrs).ring ≠ [] := by
  obtain ⟨a, rest, rfl⟩ := List.exists_cons_of_ne_nil h
  rw [buildRing, List.foldl_cons]
  refine List.foldlRecOn (motive := fun ch : ConsistentHash => ch.ring ≠ []) rest _ ?_ fun ch hch b _ => ?_
  · have hnew : (newConsistentHash defaultVirtualNodes).hasNode a = false := rfl
    rw [← List.length_pos_iff, length_addNode hash hnew]
    exact Nat.add_pos_right _ (by decide)
  · by_cases hin : ch.hasNode b = true
    · rwa [ConsistentHash.addNode_of_hasNode hin]
    · rw [← List.length_pos_iff, length_addNode hash (Bool.eq_false_iff.2 hin)]
      exact Nat.add_pos_left (List.length_pos_iff.2 hch) _

/-- **Every partition gets a primary** when there are nodes, collisions or not. -/
theorem primary_buildRing (hash : String → UInt32) {addrs : List String} (h : addrs ≠ []) (p : UInt32) :
    ((buildRing hash addrs).getNodes hash p).1 ∈ addrs := by
  have hring := ring_buildRing_ne_nil hash h
  have hidx := ConsistentHash.search_lt hring (hash s!"partition-{p}")
  obtain ⟨n, hn, -⟩ := integrity_buildRing hash addrs _ (List.getElem_mem hidx)
  rw [ConsistentHash.getNodes_fst_eq hring, ConsistentHash.owner, List.getD_eq_getElem _ _ hidx, hn]
  exact ownedBy_buildRing hash addrs _ n hn

/-- An address is not empty, and a node that leaves shares none of its hashes. -/
def Unshared (ch : ConsistentHash) : RingOp → Prop
  | .addNode nodeAddr => nodeAddr ≠ ""
  | .removeNode nodeAddr => ch.hasNode nodeAddr = true →
      ∀ h ∈ ch.ring, ch.nodeMap.get h = some nodeAddr → ch.ring.count h ≤ 1

instance (ch : ConsistentHash) : ∀ op : RingOp, Decidable (Unshared ch op)
  | .addNode nodeAddr => inferInstanceAs (Decidable (nodeAddr ≠ ""))
  | .removeNode nodeAddr => inferInstanceAs (Decidable (ch.hasNode nodeAddr = true →
      ∀ h ∈ ch.ring, ch.nodeMap.get h = some nodeAddr → ch.ring.count h ≤ 1))

theorem integrity_step {hash : String → UInt32} {ch ch' : ConsistentHash} {op : RingOp}
    (hi : ch.Integrity ∧ ch.hasNode "" = false) (hc : Unshared ch op) (h : ringStep hash ch op = some ch') :
    ch'.Integrity ∧ ch'.hasNode "" = false := by
  obtain ⟨hint, hempty⟩ := hi
  cases op with
  | addNode a =>
    cases h
    refine ⟨hint.addNode a, ?_⟩
    by_cases hin : ch.hasNode a = true
    · rwa [ConsistentHash.addNode_of_hasNode hin]
    · obtain ⟨-, -, hnode, -⟩ := ConsistentHash.addNode_spec hash (Bool.eq_false_iff.2 hin)
      rw [Bool.eq_false_iff, Ne, hnode, hempty]
      rintro (rfl | h)
      · exact hc rfl
      · cases h
  | removeNode a =>
    cases h
    by_cases hin : ch.hasNode a = true
    · have ha : a ≠ "" := by
        rintro rfl
        rw [hempty] at hin
        cases hin
      obtain ⟨-, -, hnode, -⟩ := ConsistentHash.removeNode_spec hin
      refine ⟨(hint.removeNode_iff ha hin).2 (hc hin), ?_⟩
      rw [Bool.eq_false_iff, Ne, hnode, hempty]
      simp
    · rw [ConsistentHash.removeNode_of_not_hasNode (Bool.eq_false_iff.2 hin)]
      exact ⟨hint, hempty⟩

/-- **The ring stays whole**: through any nodes that join and leave, where none that leaves shares a hash, every hash
has an owner among the nodes, and a lookup on a ring that is not empty names a node. -/
theorem ring_integrity (hash : String → UInt32) (virtualNodes : Int) {ops : List RingOp} {ch : ConsistentHash}
    (hc : Along (ringStep hash) Unshared (newConsistentHash virtualNodes) ops)
    (hrun : run (ringStep hash) (newConsistentHash virtualNodes) ops = some ch) :
    ch.Integrity ∧ (ch.ring ≠ [] →
      (∀ key, ch.getNode hash key ≠ "" ∧ ch.hasNode (ch.getNode hash key) = true) ∧
      ∀ p, (ch.getNodes hash p).1 ≠ "" ∧ ch.hasNode (ch.getNodes hash p).1 = true) := by
  have hstart : (newConsistentHash virtualNodes).Integrity ∧ (newConsistentHash virtualNodes).hasNode "" = false := by
    refine ⟨fun h hh => ?_, rfl⟩
    simp [newConsistentHash] at hh
  obtain ⟨hint, hempty⟩ := run_inv_along (P := fun ch => ch.Integrity ∧ ch.hasNode "" = false)
    (fun _ _ _ hi hc h => integrity_step hi hc h) hstart hc hrun
  have hne : ∀ n, ch.hasNode n = true → n ≠ "" := by
    rintro n hn rfl
    rw [hempty] at hn
    cases hn
  refine ⟨hint, fun hring => ⟨fun key => ?_, fun p => ?_⟩⟩
  · have hnode := hint.owner (ConsistentHash.search_lt hring (hash key))
    rw [ConsistentHash.getNode_eq hring]
    exact ⟨hne _ hnode, hnode⟩
  · have hnode := hint.owner (ConsistentHash.search_lt hring (hash s!"partition-{p}"))
    rw [ConsistentHash.getNodes_fst_eq hring]
    exact ⟨hne _ hnode, hnode⟩

/-- Two nodes join and one leaves. -/
theorem ring_integrity_leaving :
    ∃ ch, run (ringStep hashKey) (newConsistentHash 1) [.addNode "A", .addNode "B", .removeNode "A"] = some ch ∧
      ch.Integrity ∧ (ch.ring ≠ [] →
        (∀ key, ch.getNode hashKey key ≠ "" ∧ ch.hasNode (ch.getNode hashKey key) = true) ∧
        ∀ p, (ch.getNodes hashKey p).1 ≠ "" ∧ ch.hasNode (ch.getNodes hashKey p).1 = true) := by
  have hrun : run (ringStep hashKey) (newConsistentHash 1) [.addNode "A", .addNode "B", .removeNode "A"] =
      some ((((newConsistentHash 1).addNode hashKey "A").addNode hashKey "B").removeNode "A") :=
    run_cons.2 ⟨_, rfl, run_cons.2 ⟨_, rfl, run_cons.2 ⟨_, rfl, rfl⟩⟩⟩
  have hone := ConsistentHash.addNode_spec hashKey (show (newConsistentHash 1).hasNode "A" = false from rfl)
  have habsent : ((newConsistentHash 1).addNode hashKey "A").hasNode "B" = false := by
    rw [Bool.eq_false_iff, Ne, hone.2.2.1]
    decide
  have htwo := ConsistentHash.addNode_spec hashKey habsent
  have hnodup : (((newConsistentHash 1).addNode hashKey "A").addNode hashKey "B").ring.Nodup := by
    rw [htwo.1, (List.perm_insertionSort _ _).nodup_iff, hone.1, hone.2.2.2]
    show [virtualHash hashKey "A" 0, virtualHash hashKey "B" 0].Nodup
    rw [hashKey_eq]
    decide +kernel
  have hc : Along (ringStep hashKey) Unshared (newConsistentHash 1) [.addNode "A", .addNode "B", .removeNode "A"] := by
    refine ⟨by decide, fun ch h => ?_⟩
    cases h
    refine ⟨by decide, fun ch h => ?_⟩
    cases h
    exact ⟨fun _ h _ _ => List.nodup_iff_count_le_one.1 hnodup h, fun _ _ => trivial⟩
  exact ⟨_, hrun, ring_integrity hashKey 1 hc hrun⟩

/-- **A node that joins on a hash of the ring and leaves again** takes its owner with it. -/
theorem shared_hash_stays {hash : String → UInt32} {ch : ConsistentHash} {b : String} (hb : ch.hasNode b = false)
    (hne : b ≠ "") {i : Nat} (hi : i < ch.virtualNodes) (hmem : virtualHash hash b i ∈ ch.ring) :
    virtualHash hash b i ∈ ((ch.addNode hash b).removeNode b).ring ∧
      ((ch.addNode hash b).removeNode b).nodeMap.get (virtualHash hash b i) = none := by
  obtain ⟨hring, hmap, hnode, -⟩ := ConsistentHash.addNode_spec hash hb
  obtain ⟨hring', hmap', -, -⟩ := ConsistentHash.removeNode_spec ((hnode b).2 (.inl rfl))
  have hnew : virtualHash hash b i ∈ (List.range ch.virtualNodes).map (virtualHash hash b) :=
    List.mem_map_of_mem (List.mem_range.2 hi)
  have htwice : 2 ≤ (ch.addNode hash b).ring.count (virtualHash hash b i) := by
    have hold := List.one_le_count_iff.2 hmem
    have hadd := List.one_le_count_iff.2 hnew
    rw [hring, (List.perm_insertionSort _ _).count_eq, List.count_append]
    omega
  have hin : virtualHash hash b i ∈ (ch.addNode hash b).ring := List.one_le_count_iff.1 (by omega)
  refine ⟨(hring' _).2 ⟨hin, .inr ⟨hne, htwice⟩⟩, ?_⟩
  rw [hmap', if_pos ⟨hin, by simp [hmap, hnew]⟩]

/-- The tenth virtual node of one port and the 147th of another have the same CRC-32. -/
theorem virtualHash_localhost : virtualHash hashKey "localhost:3952" 146 = virtualHash hashKey "localhost:1853" 9 := by
  rw [hashKey_eq]
  decide +kernel

/-- **Bug**: a node leaves that shares a hash with one that stays. The hash is still in the ring, nobody owns it, and a
key that falls on it is given to no node. -/
theorem shared_hash_loses_owner :
    ∃ ch, run (ringStep hashKey) (newConsistentHash defaultVirtualNodes)
        [.addNode "localhost:1853", .addNode "localhost:3952", .removeNode "localhost:3952"] = some ch ∧
      ch.hasNode "localhost:1853" = true ∧ ch.ring ≠ [] ∧ ¬ ch.Integrity ∧
      ch.getNode hashKey "localhost:1853#9" = "" := by
  obtain ⟨hring, -, hnode, hv⟩ := ConsistentHash.addNode_spec hashKey
    (show (newConsistentHash defaultVirtualNodes).hasNode "localhost:1853" = false from rfl)
  have hvirt : (newConsistentHash defaultVirtualNodes).virtualNodes = defaultVirtualNodes := rfl
  have hsorted := @ConsistentHash.sorted_addNode hashKey (newConsistentHash defaultVirtualNodes)
    List.Pairwise.nil "localhost:1853"
  -- the ring of the first node, of which only these facts matter
  generalize hone : (newConsistentHash defaultVirtualNodes).addNode hashKey "localhost:1853" = one at hring hnode hv hsorted
  have habsent : one.hasNode "localhost:3952" = false := by
    rw [Bool.eq_false_iff, Ne, hnode]
    decide
  have hmem : virtualHash hashKey "localhost:3952" 146 ∈ one.ring := by
    rw [hring, List.mem_insertionSort, List.mem_append, virtualHash_localhost, hvirt]
    exact .inr (List.mem_map_of_mem (List.mem_range.2 (by decide)))
  obtain ⟨hstays, hnone⟩ := shared_hash_stays habsent (by decide) (by rw [hv, hvirt]; decide) hmem
  obtain ⟨-, -, hnode₂, -⟩ := ConsistentHash.addNode_spec hashKey habsent
  obtain ⟨-, -, hnode₃, -⟩ := ConsistentHash.removeNode_spec ((hnode₂ "localhost:3952").2 (.inl rfl))
  have hne := List.ne_nil_of_mem hstays
  have hsorted₃ := (@ConsistentHash.sorted_addNode hashKey one hsorted "localhost:3952").sublist
    (ConsistentHash.removeNode_sublist _ "localhost:3952")
  have hkey : hashKey "localhost:1853#9" = virtualHash hashKey "localhost:3952" 146 := by
    rw [virtualHash_localhost, virtualHash]
    rfl
  refine ⟨(one.addNode hashKey "localhost:3952").removeNode "localhost:3952", ?_, (hnode₃ _).2 ⟨by decide, ?_⟩, hne, ?_, ?_⟩
  · exact run_cons.2 ⟨one, congrArg some hone, run_cons.2 ⟨_, rfl, run_cons.2 ⟨_, rfl, rfl⟩⟩⟩
  · exact (hnode₂ _).2 (.inr ((hnode _).2 (.inl rfl)))
  · intro hint
    obtain ⟨n, hn, -⟩ := hint _ hstays
    rw [hnone] at hn
    cases hn
  · rw [ConsistentHash.getNode_eq hne, ConsistentHash.owner, hkey, ConsistentHash.search_of_mem hsorted₃ hstays, hnone]
    rfl

end RocksKV.Metadata
