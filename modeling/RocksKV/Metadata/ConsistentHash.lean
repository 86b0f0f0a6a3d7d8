import RocksKV.Lib.Crc32
/-!
# The consistent hash ring (`pkg/metadata/consistent_hash.go`)

| here | there |
| --- | --- |
| `ConsistentHash`        | `type ConsistentHash` (`:17-23`) |
| `addNode`, `removeNode` | `AddNode` (`:39-60`), `RemoveNode` (`:63-83`) |
| `getNode`, `getNodes`   | `GetNode` (`:86-97`), `GetNodes` (`:100-127`) |
| `search`                | `search` (`:155-163`); `sort.Search` returns the first index whose hash is `≥` |
| `hashKey`               | `hash` (`:150-152`), CRC-32 of the key |

The hash function is a parameter of the ring operations: CRC-32 promises no injectivity, and
nothing but its values enters the code.
-/

namespace RocksKV.Metadata

open Lib

/-- `DefaultVirtualNodes`. -/
def defaultVirtualNodes : Nat := 150

structure ConsistentHash where
  virtualNodes : Nat
  /-- Sorted hash values. -/
  ring : List UInt32
  /-- hash -> node address -/
  nodeMap : OrdMap UInt32 String
  /-- Set of physical nodes. -/
  nodes : OrdMap String Bool

/-- `NewConsistentHash`: a count `≤ 0` falls back to the default. -/
def newConsistentHash (virtualNodes : Int) : ConsistentHash where
  virtualNodes := if virtualNodes ≤ 0 then defaultVirtualNodes else virtualNodes.toNat
  ring := []
  nodeMap := OrdMap.empty
  nodes := OrdMap.empty

/-- `ch.hash`: `crc32.ChecksumIEEE([]byte(key))`. -/
def hashKey (key : String) : UInt32 := checksumIEEE key.toUTF8.toList

namespace ConsistentHash

variable (hash : String → UInt32)

def hasNode (ch : ConsistentHash) (nodeAddr : String) : Bool := (ch.nodes.get nodeAddr).getD false

/-- One virtual node of `AddNode`'s loop. -/
def addVirtual (nodeAddr : String) (ch : ConsistentHash) (i : Nat) : ConsistentHash :=
  let h := hash s!"{nodeAddr}#{i}"
  { ch with ring := ch.ring ++ [h], nodeMap := ch.nodeMap.insert h nodeAddr }

def addNode (ch : ConsistentHash) (nodeAddr : String) : ConsistentHash :=
  if ch.hasNode nodeAddr then ch
  else
    let ch := { ch with nodes := ch.nodes.insert nodeAddr true }
    let ch := (List.range ch.virtualNodes).foldl (addVirtual hash nodeAddr) ch
    { ch with ring := ch.ring.insertionSort (· ≤ ·) }

/-- One hash of `RemoveNode`'s loop: a hash owned by another node is kept, an owned one is dropped
and its `nodeMap` entry deleted at once, so a repeated hash is looked up again without it. -/
def removeVirtual (nodeAddr : String) (acc : List UInt32 × OrdMap UInt32 String) (h : UInt32) :
    List UInt32 × OrdMap UInt32 String :=
  if (acc.2.get h).getD "" ≠ nodeAddr then (acc.1 ++ [h], acc.2) else (acc.1, acc.2.erase h)

def removeNode (ch : ConsistentHash) (nodeAddr : String) : ConsistentHash :=
  if !ch.hasNode nodeAddr then ch
  else
    let (newRing, nodeMap) := ch.ring.foldl (removeVirtual nodeAddr) ([], ch.nodeMap)
    { ch with nodes := ch.nodes.erase nodeAddr, ring := newRing, nodeMap := nodeMap }

/-- First index whose hash is `≥ h`, wrapping to 0. -/
def search (ch : ConsistentHash) (h : UInt32) : Nat :=
  let idx := ch.ring.findIdx fun x => decide (h ≤ x)
  if ch.ring.length ≤ idx then 0 else idx

/-- `ch.nodeMap[ch.ring[idx]]`. -/
def owner (ch : ConsistentHash) (idx : Nat) : String := (ch.nodeMap.get (ch.ring.getD idx 0)).getD ""

def getNode (ch : ConsistentHash) (key : String) : String :=
  if ch.ring.length = 0 then "" else ch.owner (ch.search (hash key))

/-- `GetNodes`: the owner of the partition's point, and the next owner clockwise that differs. -/
def getNodes (ch : ConsistentHash) (partitionID : UInt32) : String × String :=
  if ch.ring.length = 0 then ("", "")
  else
    let idx := ch.search (hash s!"partition-{partitionID}")
    let primary := ch.owner idx
    let next := (List.range' 1 (ch.ring.length - 1)).map fun i => ch.owner ((idx + i) % ch.ring.length)
    (primary, (next.find? fun n => decide (n ≠ primary)).getD "")

end ConsistentHash

/-- The ring every allocation and rebalance builds: `NewConsistentHash(DefaultVirtualNodes)` and one
`AddNode` per address. -/
def buildRing (hash : String → UInt32) (addrs : List String) : ConsistentHash :=
  addrs.foldl (ConsistentHash.addNode hash) (newConsistentHash defaultVirtualNodes)

/-! ## Owners -/

/-- Every point of the ring belongs to a node in `S`. -/
def ConsistentHash.OwnedBy (S : String → Prop) (ch : ConsistentHash) : Prop :=
  ∀ h n, ch.nodeMap.get h = some n → S n

namespace ConsistentHash

variable {hash : String → UInt32} {S : String → Prop} {ch : ConsistentHash}

theorem OwnedBy.addVirtual (h : ch.OwnedBy S) {a : String} (ha : S a) (i : Nat) :
    (ch.addVirtual hash a i).OwnedBy S := by
  intro x n hx
  simp only [ConsistentHash.addVirtual, OrdMap.get_insert] at hx
  split_ifs at hx
  · cases hx
    exact ha
  · exact h x n hx

theorem OwnedBy.addNode (h : ch.OwnedBy S) {a : String} (ha : S a) : (ch.addNode hash a).OwnedBy S := by
  unfold ConsistentHash.addNode
  split_ifs
  · exact h
  · exact List.foldlRecOn (motive := OwnedBy S) _ _ h fun _ hch i _ => hch.addVirtual ha i

theorem OwnedBy.owner (h : ch.OwnedBy S) (idx : Nat) : ch.owner idx = "" ∨ S (ch.owner idx) := by
  unfold ConsistentHash.owner
  cases hn : ch.nodeMap.get (ch.ring.getD idx 0) with
  | none => exact .inl rfl
  | some n => exact .inr (h _ n hn)

end ConsistentHash

theorem ownedBy_buildRing (hash : String → UInt32) (addrs : List String) :
    (buildRing hash addrs).OwnedBy (· ∈ addrs) :=
  List.foldlRecOn (motive := ConsistentHash.OwnedBy (· ∈ addrs)) _ _ (fun _ _ h => by cases h)
    fun _ hch _ ha => hch.addNode ha

/-- **The ring names its own nodes only.** -/
theorem getNodes_buildRing (hash : String → UInt32) (addrs : List String) (p : UInt32) :
    ((buildRing hash addrs).getNodes hash p).1 = "" ∨ ((buildRing hash addrs).getNodes hash p).1 ∈ addrs := by
  unfold ConsistentHash.getNodes
  split_ifs
  · exact .inl rfl
  · exact (ownedBy_buildRing hash addrs).owner _

/-! ## Rings without collisions -/

/-- The place of the `i`-th virtual node of an address. -/
def virtualHash (hash : String → UInt32) (nodeAddr : String) (i : Nat) : UInt32 := hash s!"{nodeAddr}#{i}"

/-- No two of the addresses have a virtual node at the same place. -/
def CollisionFree (hash : String → UInt32) (addrs : List String) : Prop :=
  ∀ a ∈ addrs, ∀ b ∈ addrs, ∀ i < defaultVirtualNodes, ∀ j < defaultVirtualNodes,
    virtualHash hash a i = virtualHash hash b j → a = b

theorem CollisionFree.sublist {hash : String → UInt32} {addrs bs : List String} (h : CollisionFree hash addrs)
    (hs : ∀ b ∈ bs, b ∈ addrs) : CollisionFree hash bs :=
  fun a ha b hb => h a (hs a ha) b (hs b hb)

/-- The places of all virtual nodes. -/
def places (hash : String → UInt32) (addrs : List String) : List UInt32 :=
  addrs.flatMap fun a => (List.range defaultVirtualNodes).map (virtualHash hash a)

/-- Places whose residues differ are all different. -/
theorem nodup_places {hash : String → UInt32} {addrs : List String} {m : Nat}
    (h : distinctMod m 0 ((places hash addrs).map UInt32.toNat) = true) : (places hash addrs).Nodup :=
  List.Nodup.of_map _ (nodup_of_distinctMod h).1

theorem collisionFree_of_places {hash : String → UInt32} {addrs : List String} (hnodup : (places hash addrs).Nodup) :
    CollisionFree hash addrs := by
  intro a ha b hb i hi j hj hij
  by_contra hab
  have : Std.Symm (Function.onFun List.Disjoint fun a =>
      (List.range defaultVirtualNodes).map (virtualHash hash a)) := ⟨fun _ _ hd => hd.symm⟩
  have hdisj := (List.nodup_flatMap.1 hnodup).2.forall ha hb hab
  refine hdisj (List.mem_map.2 ⟨i, List.mem_range.2 hi, rfl⟩) ?_
  rw [hij]
  exact List.mem_map.2 ⟨j, List.mem_range.2 hj, rfl⟩

/-- The ring has the virtual nodes of the addresses in `S`, each owned by its address. -/
structure ConsistentHash.Spans (hash : String → UInt32) (S : String → Prop) (ch : ConsistentHash) : Prop where
  virtualNodes : ch.virtualNodes = defaultVirtualNodes
  hasNode      : ∀ a, ch.hasNode a = true ↔ S a
  ring         : ∀ h, h ∈ ch.ring ↔ ∃ a, S a ∧ ∃ i < defaultVirtualNodes, h = virtualHash hash a i
  owner        : ∀ a, S a → ∀ i < defaultVirtualNodes, ch.nodeMap.get (virtualHash hash a i) = some a

namespace ConsistentHash

variable {hash : String → UInt32} {S : String → Prop} {ch : ConsistentHash}

/-- `AddNode`'s loop: the new places, and their owner. -/
theorem foldl_addVirtual (a : String) : ∀ (is : List Nat) (ch : ConsistentHash),
    (is.foldl (addVirtual hash a) ch).ring = ch.ring ++ is.map (virtualHash hash a) ∧
    (∀ h, (is.foldl (addVirtual hash a) ch).nodeMap.get h =
      if h ∈ is.map (virtualHash hash a) then some a else ch.nodeMap.get h) ∧
    (is.foldl (addVirtual hash a) ch).nodes = ch.nodes ∧
    (is.foldl (addVirtual hash a) ch).virtualNodes = ch.virtualNodes
  | [], ch => by simp
  | i :: is, ch => by
    obtain ⟨hring, hmap, hnodes, hvirt⟩ := foldl_addVirtual a is (addVirtual hash a ch i)
    refine ⟨?_, fun h => ?_, hnodes, hvirt⟩
    · rw [List.foldl_cons, hring]
      simp [addVirtual, virtualHash]
    · rw [List.foldl_cons, hmap]
      simp only [List.map_cons, List.mem_cons, addVirtual, OrdMap.get_insert]
      by_cases hin : h ∈ is.map (virtualHash hash a)
      · simp [hin]
      · simp only [hin, if_false, or_false]
        rfl

theorem Spans.addNode (h : ch.Spans hash S) {a : String} (hfree : ∀ b, S b → ∀ i < defaultVirtualNodes,
    ∀ j < defaultVirtualNodes, virtualHash hash a i = virtualHash hash b j → a = b) :
    (ch.addNode hash a).Spans hash fun b => b = a ∨ S b := by
  unfold ConsistentHash.addNode
  by_cases hin : ch.hasNode a = true
  · have ha := (h.hasNode a).1 hin
    rw [if_pos hin]
    refine ⟨h.virtualNodes, fun b => ?_, fun x => ?_, fun b hb => ?_⟩
    · rw [h.hasNode]
      exact ⟨.inr, fun hb => hb.elim (fun e => e ▸ ha) id⟩
    · rw [h.ring]
      exact ⟨fun ⟨b, hb, i⟩ => ⟨b, .inr hb, i⟩, fun ⟨b, hb, i⟩ => ⟨b, hb.elim (fun e => e ▸ ha) id, i⟩⟩
    · exact h.owner b (hb.elim (fun e => e ▸ ha) id)
  · rw [if_neg hin]
    obtain ⟨hring, hmap, hnodes, hvirt⟩ := @foldl_addVirtual hash a (List.range ch.virtualNodes)
      { ch with nodes := ch.nodes.insert a true }
    simp only [h.virtualNodes] at hring hmap hnodes hvirt ⊢
    refine ⟨by simp [hvirt], fun b => ?_, fun x => ?_, fun b hb i hi => ?_⟩
    · have hb := h.hasNode b
      simp only [ConsistentHash.hasNode, hnodes, OrdMap.get_insert] at hb ⊢
      by_cases hba : b = a
      · simp [hba]
      · simp [hba, hb]
    · rw [List.mem_insertionSort, hring, List.mem_append, h.ring]
      simp only [List.mem_map, List.mem_range]
      constructor
      · rintro (⟨b, hb, i, hi, rfl⟩ | ⟨i, hi, rfl⟩)
        · exact ⟨b, .inr hb, i, hi, rfl⟩
        · exact ⟨a, .inl rfl, i, hi, rfl⟩
      · rintro ⟨b, rfl | hb, i, hi, rfl⟩
        · exact .inr ⟨i, hi, rfl⟩
        · exact .inl ⟨b, hb, i, hi, rfl⟩
    · rw [hmap]
      split_ifs with hnew
      · obtain ⟨j, hj, hj'⟩ := List.mem_map.1 hnew
        rw [List.mem_range] at hj
        rcases hb with rfl | hb
        · rfl
        · rw [hfree b hb j hj i hi hj']
      · rcases hb with rfl | hb
        · exact absurd (List.mem_map_of_mem (List.mem_range.2 hi)) hnew
        · exact h.owner b hb i hi

end ConsistentHash

theorem spans_buildRing {hash : String → UInt32} {addrs : List String} (hfree : CollisionFree hash addrs) :
    (buildRing hash addrs).Spans hash (· ∈ addrs) := by
  have hstep : ∀ (l : List String) (S : String → Prop) (ch : ConsistentHash), (∀ a, S a → a ∈ addrs) →
      (∀ a ∈ l, a ∈ addrs) → ch.Spans hash S →
      (l.foldl (ConsistentHash.addNode hash) ch).Spans hash fun a => a ∈ l ∨ S a := by
    intro l
    induction l with
    | nil =>
      intro S ch hS hl h
      simpa using h
    | cons a l ih =>
      intro S ch hS hl h
      have ha := hl a List.mem_cons_self
      have hadd := h.addNode (a := a) fun b hb i hi j hj => hfree a ha b (hS b hb) i hi j hj
      have := ih _ _ (fun b hb => hb.elim (fun e => e ▸ ha) (hS b)) (fun b hb => hl b (List.mem_cons_of_mem _ hb)) hadd
      rw [List.foldl_cons]
      convert this using 2
      rw [List.mem_cons]
      tauto
  have h0 : (newConsistentHash defaultVirtualNodes).Spans hash fun _ => False := by
    refine ⟨rfl, fun a => ?_, fun h => ?_, fun _ h => h.elim⟩
    · simp [newConsistentHash, ConsistentHash.hasNode]
    · simp [newConsistentHash]
  have hall := hstep addrs (fun _ => False) _ (fun _ h => h.elim) (fun _ h => h) h0
  simp only [or_false] at hall
  exact hall

namespace ConsistentHash

variable {hash : String → UInt32} {S : String → Prop} {ch : ConsistentHash}

theorem search_lt (h : ch.ring ≠ []) (x : UInt32) : ch.search x < ch.ring.length := by
  have hpos := List.length_pos_iff.2 h
  unfold search
  dsimp only
  split_ifs <;> omega

/-- Every place of the ring has an owner among the nodes. -/
theorem Spans.owner_of_lt (h : ch.Spans hash S) {idx : Nat} (hidx : idx < ch.ring.length) : S (ch.owner idx) := by
  obtain ⟨a, ha, i, hi, hplace⟩ := (h.ring _).1 (List.getElem_mem hidx)
  have hown : ch.owner idx = a := by
    rw [ConsistentHash.owner, List.getD_eq_getElem _ _ hidx, hplace, h.owner a ha i hi]
    rfl
  rw [hown]
  exact ha

/-- Every node owns a place. -/
theorem Spans.exists_owner (h : ch.Spans hash S) {a : String} (ha : S a) : ∃ idx < ch.ring.length, ch.owner idx = a := by
  have hmem := (h.ring (virtualHash hash a 0)).2 ⟨a, ha, 0, by decide, rfl⟩
  obtain ⟨idx, hidx, hplace⟩ := List.getElem_of_mem hmem
  refine ⟨idx, hidx, ?_⟩
  rw [ConsistentHash.owner, List.getD_eq_getElem _ _ hidx, hplace, h.owner a ha 0 (by decide)]
  rfl

/-- **The pair of a partition**: two different nodes, when there are two. -/
theorem Spans.getNodes (h : ch.Spans hash S) {a : String} (ha : S a) (p : UInt32) :
    S (ch.getNodes hash p).1 ∧ ((∃ b, S b ∧ b ≠ (ch.getNodes hash p).1) →
      S (ch.getNodes hash p).2 ∧ (ch.getNodes hash p).2 ≠ (ch.getNodes hash p).1) := by
  obtain ⟨i₀, hi₀, -⟩ := h.exists_owner ha
  have hne : ch.ring ≠ [] := List.ne_nil_of_length_pos (by omega)
  unfold ConsistentHash.getNodes
  rw [if_neg (by omega)]
  dsimp only
  set idx := ch.search (hash s!"partition-{p}") with hidx
  have hlt : idx < ch.ring.length := search_lt hne _
  refine ⟨h.owner_of_lt hlt, fun ⟨b, hb, hba⟩ => ?_⟩
  obtain ⟨j, hj, hown⟩ := h.exists_owner hb
  -- `b` owns a place other than `idx`, so the walk around the ring meets another owner
  have hij : j ≠ idx := by
    rintro rfl
    exact hba hown.symm
  set next := (List.range' 1 (ch.ring.length - 1)).map fun i => ch.owner ((idx + i) % ch.ring.length) with hnext
  have hmem : b ∈ next := by
    refine List.mem_map.2 ⟨(j + ch.ring.length - idx) % ch.ring.length, List.mem_range'_1.2 ?_, ?_⟩
    · have hmod : (j + ch.ring.length - idx) % ch.ring.length < ch.ring.length := Nat.mod_lt _ (by omega)
      refine ⟨Nat.one_le_iff_ne_zero.2 fun hz => ?_, by omega⟩
      obtain ⟨k, hk⟩ := Nat.dvd_of_mod_eq_zero hz
      rcases Nat.lt_or_ge k 1 with hk1 | hk1
      · obtain rfl : k = 0 := by omega
        omega
      · rcases Nat.lt_or_ge k 2 with hk2 | hk2
        · obtain rfl : k = 1 := by omega
          omega
        · have := Nat.mul_le_mul_left ch.ring.length hk2
          omega
    · rw [Nat.add_mod_mod, show idx + (j + ch.ring.length - idx) = j + ch.ring.length by omega, Nat.add_mod_right,
        Nat.mod_eq_of_lt hj, hown]
  cases hf : next.find? fun n => decide (n ≠ ch.owner idx) with
  | none =>
    rw [List.find?_eq_none] at hf
    exact absurd (hf b hmem) (by simpa using hba)
  | some c =>
    have hc := List.find?_some hf
    obtain ⟨i, -, hi⟩ := List.mem_map.1 (List.mem_of_find?_eq_some hf)
    refine ⟨?_, by simpa using hc⟩
    rw [Option.getD_some, ← hi]
    exact h.owner_of_lt (Nat.mod_lt _ (by omega))

end ConsistentHash

/-- **A ring over two addresses or more** gives every partition two of them. -/
theorem getNodes_pair {hash : String → UInt32} {addrs : List String} (hfree : CollisionFree hash addrs)
    {a b : String} (ha : a ∈ addrs) (hb : b ∈ addrs) (hab : a ≠ b) (p : UInt32) :
    ((buildRing hash addrs).getNodes hash p).1 ∈ addrs ∧ ((buildRing hash addrs).getNodes hash p).2 ∈ addrs ∧
      ((buildRing hash addrs).getNodes hash p).2 ≠ ((buildRing hash addrs).getNodes hash p).1 := by
  obtain ⟨hfst, hsnd⟩ := (spans_buildRing hfree).getNodes ha p
  refine ⟨hfst, hsnd ?_⟩
  by_cases h : a = ((buildRing hash addrs).getNodes hash p).1
  · exact ⟨b, hb, fun hb' => hab (h.trans hb'.symm)⟩
  · exact ⟨a, ha, h⟩

theorem getNodes_of_nodup {hash : String → UInt32} {addrs : List String} (hfree : CollisionFree hash addrs)
    (hnd : addrs.Nodup) (h2 : 2 ≤ addrs.length) (p : UInt32) :
    ((buildRing hash addrs).getNodes hash p).1 ∈ addrs ∧ ((buildRing hash addrs).getNodes hash p).2 ∈ addrs ∧
      ((buildRing hash addrs).getNodes hash p).2 ≠ ((buildRing hash addrs).getNodes hash p).1 := by
  refine getNodes_pair hfree (List.getElem_mem (by omega : 0 < _)) (List.getElem_mem (by omega : 1 < _)) (fun h => ?_) p
  exact absurd ((hnd.getElem_inj_iff).1 h) (by decide)

/-! ### The first place clockwise -/

theorem ConsistentHash.sorted_addNode {hash : String → UInt32} {ch : ConsistentHash} (h : ch.ring.Pairwise (· ≤ ·))
    (a : String) : (ch.addNode hash a).ring.Pairwise (· ≤ ·) := by
  unfold ConsistentHash.addNode
  split_ifs
  · exact h
  · exact List.pairwise_insertionSort _ _

theorem sorted_buildRing (hash : String → UInt32) (addrs : List String) :
    (buildRing hash addrs).ring.Pairwise (· ≤ ·) :=
  List.foldlRecOn (motive := fun ch : ConsistentHash => ch.ring.Pairwise (· ≤ ·)) _ _ List.Pairwise.nil
    fun _ h a _ => ConsistentHash.sorted_addNode h a

/-- **The primary of a partition** is the node with the first place at or after the partition's. -/
theorem getNodes_fst {hash : String → UInt32} {addrs : List String} (hfree : CollisionFree hash addrs) {a : String}
    (ha : a ∈ addrs) {i : Nat} (hi : i < defaultVirtualNodes) {p : UInt32}
    (hle : hash s!"partition-{p}" ≤ virtualHash hash a i)
    (hfirst : ∀ b ∈ addrs, ∀ j < defaultVirtualNodes, hash s!"partition-{p}" ≤ virtualHash hash b j →
      virtualHash hash a i ≤ virtualHash hash b j) :
    ((buildRing hash addrs).getNodes hash p).1 = a := by
  have hspans := spans_buildRing hfree
  have hsorted := sorted_buildRing hash addrs
  generalize buildRing hash addrs = ch at hspans hsorted
  have hmem := (hspans.ring _).2 ⟨a, ha, i, hi, rfl⟩
  obtain ⟨k, hk, hplace⟩ := List.getElem_of_mem hmem
  set idx := ch.ring.findIdx fun x => decide (hash s!"partition-{p}" ≤ x) with hidx
  have hlt : idx < ch.ring.length := List.findIdx_lt_length.2 ⟨_, hmem, by simpa using hle⟩
  have hat : hash s!"partition-{p}" ≤ ch.ring[idx] := by simpa using List.findIdx_getElem (w := hlt)
  -- the place found is the first one, and it is `a`'s
  have hge : virtualHash hash a i ≤ ch.ring[idx] := by
    obtain ⟨b, hb, j, hj, hx⟩ := (hspans.ring _).1 (List.getElem_mem hlt)
    rw [hx] at hat ⊢
    exact hfirst b hb j hj hat
  have hik : idx ≤ k := by
    by_contra hkidx
    have hno := List.not_of_lt_findIdx (Nat.lt_of_not_le hkidx)
    rw [hplace] at hno
    exact absurd hle (by simpa using hno)
  have hle' : ch.ring[idx] ≤ virtualHash hash a i := by
    rw [← hplace]
    exact hsorted.rel_get_of_le (a := ⟨idx, hlt⟩) (b := ⟨k, hk⟩) hik
  have heq := UInt32.le_antisymm hle' hge
  rw [ConsistentHash.getNodes, if_neg (by omega)]
  dsimp only
  rw [ConsistentHash.search, ← hidx, if_neg (Nat.not_le.2 hlt), ConsistentHash.owner, List.getD_eq_getElem _ _ hlt,
    heq, hspans.owner a ha i hi]
  rfl

/-- With two nodes the other one is the replica. -/
theorem getNodes_two {hash : String → UInt32} {addrs : List String} (hfree : CollisionFree hash addrs) {a b : String}
    (ha : a ∈ addrs) (hb : b ∈ addrs) (hab : a ≠ b) (hall : ∀ c ∈ addrs, c = a ∨ c = b) {p : UInt32}
    (hfst : ((buildRing hash addrs).getNodes hash p).1 = a) : (buildRing hash addrs).getNodes hash p = (a, b) := by
  obtain ⟨-, hmem, hne⟩ := getNodes_pair hfree ha hb hab p
  rw [hfst] at hne
  exact Prod.ext hfst ((hall _ hmem).resolve_left hne)

/-! ## Three nodes -/

theorem hashKey_eq : hashKey = fun key => UInt32.ofNat (checksumNat key.toUTF8.toList) :=
  funext fun key => checksumIEEE_eq key.toUTF8.toList

/-- The CRC-32 ring of nodes `A`, `B` and `C` has no collision. -/
theorem nodup_places_abc : (places hashKey ["A", "B", "C"]).Nodup := by
  apply @nodup_places _ _ 8192
  rw [hashKey_eq]
  decide +kernel

theorem collisionFree_abc : CollisionFree hashKey ["A", "B", "C"] := collisionFree_of_places nodup_places_abc

theorem getNodes_ab : (buildRing hashKey ["A", "B"]).getNodes hashKey 28 = ("B", "A") := by
  have hfree : CollisionFree hashKey ["A", "B"] := collisionFree_abc.sublist (by decide)
  refine getNodes_two hfree (by decide) (by decide) (by decide) (by decide) ?_
  refine getNodes_fst hfree (by decide) (by decide : 46 < _) ?_ ?_ <;> rw [hashKey_eq] <;> decide +kernel

theorem getNodes_bc : (buildRing hashKey ["B", "C"]).getNodes hashKey 28 = ("C", "B") := by
  have hfree : CollisionFree hashKey ["B", "C"] := collisionFree_abc.sublist (by decide)
  refine getNodes_two hfree (by decide) (by decide) (by decide) (by decide) ?_
  refine getNodes_fst hfree (by decide) (by decide : 79 < _) ?_ ?_ <;> rw [hashKey_eq] <;> decide +kernel

end RocksKV.Metadata
