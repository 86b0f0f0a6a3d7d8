import RocksKV.Compute.Server
import RocksKV.Lib.Run
import RocksKV.Storage.RouteUpdate
/-!
# Set if not exists (`pkg/client/client.go:271-295`)

| here | there |
| --- | --- |
| `SetNXCall` | one call of `SetNX`: its value, and how far it is |
| `get`       | `Exists` (`:272-275`): one `Get` request, through a compute server with its own routing table |
| `put`       | one `Put` request, likewise |
| `other`     | a storage node serves a write that does not touch the key |
| `replicate` | a storage node applies entries sent by another |

**Bug**: the check and the write are two requests, and nothing ties them together. Two calls that both ask before either
writes both return true, and so does a call whose `Get` is answered by a replica that has not got the first one's value
(`both_calls_set`).
-/

namespace RocksKV.Cluster

open Lib Storage

inductive SetNXPhase
  | called
  /-- `Exists` has said no. -/
  | absent
  | returned (result : Bool)
  deriving DecidableEq, Repr

structure SetNXCall where
  value : Bytes
  phase : SetNXPhase
  deriving DecidableEq, Repr

structure SetNXSys where
  nodes : Compute.Nodes
  calls : List SetNXCall

inductive SetNXAct
  | call (value : Bytes)
  | get (i : Nat) (table : Compute.RouteTable) (fails : String → Option String)
  | put (i : Nat) (table : Compute.RouteTable) (fails : String → Option String) (disk : Disk)
  | other (node : String) (disk : Disk) (req : WriteRequest)
  | replicate (node : String) (partitionID : UInt32) (entries : List Pb.ReplicationEntry)

section
variable (sum64 : Bytes → UInt64) (key : Bytes)

/-- The key in a node's store. -/
def storedKey : Bytes := makePartitionKey (Compute.calculatePartition sum64 key) key

def setNXStep (s : SetNXSys) : SetNXAct → Option SetNXSys
  | .call value => some { s with calls := s.calls ++ [⟨value, .called⟩] }
  | .get i table fails =>
    match s.calls[i]? with
    | some ⟨value, .called⟩ =>
      match Compute.get sum64 table s.nodes fails key with
      | .ok found =>
        let phase := if found.isSome then .returned false else .absent
        some { s with calls := s.calls.set i ⟨value, phase⟩ }
      | .error _ => none
    | _ => none
  | .put i table fails disk =>
    match s.calls[i]? with
    | some ⟨value, .absent⟩ =>
      match Compute.put sum64 table s.nodes fails disk key value with
      | .ok nodes => some { nodes := nodes, calls := s.calls.set i ⟨value, .returned true⟩ }
      | .error _ => none
    | _ => none
  | .other node disk req =>
    if ∀ w ∈ req.op.writes req.partitionId, w.key ≠ storedKey sum64 key then
      some { s with nodes := Function.update s.nodes node ((s.nodes node).serve disk req).1 }
    else none
  | .replicate node partitionID entries =>
    some { s with nodes := Function.update s.nodes node ((s.nodes node).replicate partitionID entries).1 }

/-- The table sends the key to `home`. -/
def RoutedTo (home : String) (table : Compute.RouteTable) : Prop :=
  ∃ replica epoch, Compute.getPartitionNodesByID table (Compute.calculatePartition sum64 key) = .ok (home, replica, epoch)

/-- All requests go to the node `home`, which answers them and is nobody's replica; and no call asks between the
`Exists` of another that has found nothing and its `Put`. -/
def OneByOne (home : String) (s : SetNXSys) : SetNXAct → Prop
  | .get _ table fails => RoutedTo sum64 key home table ∧ fails home = none ∧ ∀ c ∈ s.calls, c.phase ≠ .absent
  | .put _ table _ _ => RoutedTo sum64 key home table
  | .replicate node _ _ => node ≠ home
  | _ => True

end

variable {sum64 : Bytes → UInt64} {key : Bytes} {home : String} {s s' : SetNXSys}

/-- While nobody has set the key one call at most is about to; once it is set, its value is that call's. -/
structure SetNXInv (sum64 : Bytes → UInt64) (key : Bytes) (home : String) (s : SetNXSys) : Prop where
  hosted   : (s.nodes home).pm.hasPartition (Compute.calculatePartition sum64 key) = true
  absent   : ∀ (i : Nat) (c : SetNXCall), s.calls[i]? = some c → c.phase = .absent →
    (s.nodes home).db.get (storedKey sum64 key) = none
  one      : ∀ (i j : Nat) (c d : SetNXCall), s.calls[i]? = some c → s.calls[j]? = some d → c.phase = .absent →
    d.phase = .absent → i = j
  set      : ∀ (i : Nat) (c : SetNXCall), s.calls[i]? = some c → c.phase = .returned true →
    (s.nodes home).db.get (storedKey sum64 key) = some c.value
  winner   : ∀ (i j : Nat) (c d : SetNXCall), s.calls[i]? = some c → s.calls[j]? = some d → c.phase = .returned true →
    d.phase = .returned true → i = j

theorem setNXInv_start {nodes : Compute.Nodes}
    (h : (nodes home).get (Compute.calculatePartition sum64 key) key = .ok none) :
    SetNXInv sum64 key home { nodes := nodes, calls := [] } where
  hosted := by
    by_contra hno
    simp [Server.get, Bool.not_eq_true _ ▸ hno] at h
  absent _ _ h := by cases h
  one _ _ _ _ h := by cases h
  set _ _ h := by cases h
  winner _ _ _ _ h := by cases h

/-- What the node `home` has for the key, and that it has the partition, is all a step needs of the nodes. -/
theorem SetNXInv.setNodes (h : SetNXInv sum64 key home s) {nodes : Compute.Nodes}
    (hhost : (nodes home).pm.partitions = (s.nodes home).pm.partitions)
    (hvalue : (nodes home).db.get (storedKey sum64 key) = (s.nodes home).db.get (storedKey sum64 key)) :
    SetNXInv sum64 key home { s with nodes := nodes } where
  hosted := by
    rw [PartitionManager.hasPartition, hhost]
    exact h.hosted
  absent i c hc hp := hvalue.trans (h.absent i c hc hp)
  one := h.one
  set i c hc hp := hvalue.trans (h.set i c hc hp)
  winner := h.winner

/-- A request that does not write the key. -/
theorem SetNXInv.other (h : SetNXInv sum64 key home s) (node : String) (disk : Disk) {req : WriteRequest}
    (hreq : ∀ w ∈ req.op.writes req.partitionId, w.key ≠ storedKey sum64 key) :
    SetNXInv sum64 key home { s with nodes := Function.update s.nodes node ((s.nodes node).serve disk req).1 } := by
  by_cases hn : home = node
  · subst hn
    rcases (s.nodes home).serve_cases disk req with ⟨e, he⟩ | ⟨-, hok⟩
    · rw [he, Function.update_eq_self]
      exact h
    · refine h.setNodes ?_ ?_
      · rw [Function.update_self, hok, Server.logOn_pm]
      · rw [Function.update_self, hok, Server.db, Server.logOn_pm]
        show ((s.nodes home).db.write _).get _ = _
        rw [get_write, lastWrite_eq_none.2 fun w hw => (hreq w hw).symm]
        rfl
  · refine h.setNodes ?_ ?_ <;> rw [Function.update_of_ne hn]

/-- What `home` says of the key decides the call's next phase. -/
theorem SetNXInv.get (h : SetNXInv sum64 key home s) (hnone : ∀ c ∈ s.calls, c.phase ≠ .absent) {phase : SetNXPhase}
    (hphase : phase = .returned false ∨ phase = .absent ∧ (s.nodes home).db.get (storedKey sum64 key) = none)
    (i : Nat) (value : Bytes) : SetNXInv sum64 key home { s with calls := s.calls.set i ⟨value, phase⟩ } := by
  have hold : ∀ {j : Nat} {c : SetNXCall}, s.calls[j]? = some c → c.phase ≠ .absent :=
    fun hc => hnone _ (List.mem_of_getElem? hc)
  have hwon : ∀ {j : Nat} {c : SetNXCall}, (s.calls.set i ⟨value, phase⟩)[j]? = some c → c.phase = .returned true →
      s.calls[j]? = some c := by
    intro j c hc hp
    rcases getElem?_set_eq_some hc with ⟨-, rfl⟩ | ⟨-, hc⟩
    · rcases hphase with rfl | ⟨rfl, -⟩ <;> cases hp
    · exact hc
  refine ⟨h.hosted, fun j c hc hp => ?_, fun j k c d hc hd hp hq => ?_, fun j c hc hp => h.set j c (hwon hc hp) hp,
    fun j k c d hc hd hp hq => h.winner j k c d (hwon hc hp) (hwon hd hq) hp hq⟩
  · rcases getElem?_set_eq_some hc with ⟨-, rfl⟩ | ⟨-, hc⟩
    · rcases hphase with rfl | ⟨-, hfree⟩
      · cases hp
      · exact hfree
    · exact absurd hp (hold hc)
  · rcases getElem?_set_eq_some hc with ⟨rfl, -⟩ | ⟨-, hc⟩
    · rcases getElem?_set_eq_some hd with ⟨rfl, -⟩ | ⟨-, hd⟩
      · rfl
      · exact absurd hq (hold hd)
    · exact absurd hp (hold hc)

theorem SetNXInv.put (h : SetNXInv sum64 key home s) {i : Nat} {value : Bytes} (hi : s.calls[i]? = some ⟨value, .absent⟩)
    {nodes : Compute.Nodes} (hhost : (nodes home).pm.partitions = (s.nodes home).pm.partitions)
    (hvalue : (nodes home).db.get (storedKey sum64 key) = some value) :
    SetNXInv sum64 key home { nodes := nodes, calls := s.calls.set i ⟨value, .returned true⟩ } := by
  -- nobody has set the key before, and nobody else is about to
  have hnone := h.absent i _ hi rfl
  have hwon : ∀ {j : Nat} {c : SetNXCall}, s.calls[j]? = some c → c.phase ≠ .returned true := by
    intro j c hc hp
    rw [h.set j c hc hp] at hnone
    cases hnone
  have habsent : ∀ {j : Nat} {c : SetNXCall}, j ≠ i → s.calls[j]? = some c → c.phase ≠ .absent :=
    fun hj hc hp => hj (h.one _ i _ _ hc hi hp rfl)
  refine ⟨by rw [PartitionManager.hasPartition, hhost]; exact h.hosted, fun j c hc hp => ?_,
    fun j k c d hc hd hp hq => ?_, fun j c hc hp => ?_, fun j k c d hc hd hp hq => ?_⟩
  · rcases getElem?_set_eq_some hc with ⟨-, rfl⟩ | ⟨hj, hc⟩
    · cases hp
    · exact absurd hp (habsent hj hc)
  · rcases getElem?_set_eq_some hc with ⟨-, rfl⟩ | ⟨hj, hc⟩
    · cases hp
    · exact absurd hp (habsent hj hc)
  · rcases getElem?_set_eq_some hc with ⟨-, rfl⟩ | ⟨-, hc⟩
    · exact hvalue
    · exact absurd hp (hwon hc)
  · rcases getElem?_set_eq_some hc with ⟨rfl, -⟩ | ⟨-, hc⟩
    · rcases getElem?_set_eq_some hd with ⟨rfl, -⟩ | ⟨-, hd⟩
      · rfl
      · exact absurd hq (hwon hd)
    · exact absurd hp (hwon hc)

theorem SetNXInv.call (h : SetNXInv sum64 key home s) (value : Bytes) :
    SetNXInv sum64 key home { s with calls := s.calls ++ [⟨value, .called⟩] } := by
  have hold : ∀ {j : Nat} {c : SetNXCall}, (s.calls ++ [⟨value, .called⟩])[j]? = some c → c.phase ≠ .called →
      s.calls[j]? = some c := by
    intro j c hc hp
    rcases getElem?_concat_eq_some hc with ⟨-, rfl⟩ | hc
    · exact absurd rfl hp
    · exact hc
  refine ⟨h.hosted, fun j c hc hp => h.absent j c (hold hc (by simp [hp])) hp, fun j k c d hc hd hp hq => ?_,
    fun j c hc hp => h.set j c (hold hc (by simp [hp])) hp, fun j k c d hc hd hp hq => ?_⟩
  · exact h.one j k c d (hold hc (by simp [hp])) (hold hd (by simp [hq])) hp hq
  · exact h.winner j k c d (hold hc (by simp [hp])) (hold hd (by simp [hq])) hp hq

theorem setNXInv_step {a : SetNXAct} (h : SetNXInv sum64 key home s) (hc : OneByOne sum64 key home s a)
    (hs : setNXStep sum64 key s a = some s') : SetNXInv sum64 key home s' := by
  cases a with
  | call value =>
    cases hs
    exact h.call value
  | get i table fails =>
    simp only [setNXStep] at hs
    split at hs
    · rename_i value hi
      obtain ⟨⟨replica, epoch, hroute⟩, hup, hnone⟩ := hc
      rw [Compute.get_of_primary hroute hup h.hosted] at hs
      cases hs
      refine h.get hnone ?_ i value
      cases hfound : (s.nodes home).db.get (storedKey sum64 key) with
      | none => exact .inr ⟨by rw [← storedKey, hfound]; rfl, rfl⟩
      | some found => exact .inl (by rw [← storedKey, hfound]; rfl)
    · cases hs
  | put i table fails disk =>
    simp only [setNXStep] at hs
    split at hs
    · rename_i value hi
      split at hs
      · rename_i nodes hput
        cases hs
        obtain ⟨replica, epoch, hroute⟩ := hc
        obtain ⟨hdb, hhost, -⟩ := Compute.put_of_primary hroute hput
        refine h.put hi hhost ?_
        rw [hdb, get_write, storedKey]
        simp [lastWrite, Write.key, Write.val]
      · cases hs
    · cases hs
  | other node disk req =>
    simp only [setNXStep, Option.ite_none_right_eq_some] at hs
    obtain ⟨hreq, hs⟩ := hs
    cases hs
    exact h.other node disk hreq
  | replicate node partitionID entries =>
    cases hs
    refine h.setNodes ?_ ?_ <;> rw [Function.update_of_ne (Ne.symm hc)]

/-- **`SetNX` is exclusive** where the calls come one by one to one node: at most one call returns true, and the value
stored is that call's. -/
theorem setNX_exclusive {nodes : Compute.Nodes} {as : List SetNXAct}
    (hfree : (nodes home).get (Compute.calculatePartition sum64 key) key = .ok none)
    (hc : Along (setNXStep sum64 key) (OneByOne sum64 key home) { nodes := nodes, calls := [] } as)
    (hrun : run (setNXStep sum64 key) { nodes := nodes, calls := [] } as = some s') :
    (∀ (i j : Nat) (c d : SetNXCall), s'.calls[i]? = some c → s'.calls[j]? = some d → c.phase = .returned true →
      d.phase = .returned true → i = j) ∧
    ∀ (i : Nat) (c : SetNXCall), s'.calls[i]? = some c → c.phase = .returned true →
      (s'.nodes home).get (Compute.calculatePartition sum64 key) key = .ok (some c.value) := by
  have hinv := run_inv_along (fun _ _ _ h hc hs => setNXInv_step h hc hs) (setNXInv_start hfree) hc hrun
  refine ⟨hinv.winner, fun i c hi hp => ?_⟩
  rw [Server.get_of_hosted hinv.hosted]
  exact congrArg _ (hinv.set i c hi hp)

/-- Partition 7 is on `a`, with a replica on `b`. -/
def sevenOnA : Compute.RouteTable :=
  { version := 1, partitions := OrdMap.empty.insert 7 ⟨7, "a", "b", .normal, "", .none, 0⟩ }

/-- Its primary, and its replica anywhere else. -/
def nodesOfSeven (node : String) : Storage.Server := if node = "a" then primaryOfSeven else replicaOfSeven

/-- One call after the other. -/
theorem setNX_exclusive_in_turn :
    ∃ s, run (setNXStep Compute.sum64OfTwo Compute.keyOfSeven) { nodes := nodesOfSeven, calls := [] }
        [.call [1], .call [2], .get 0 sevenOnA fun _ => none, .put 0 sevenOnA (fun _ => none) .working,
          .get 1 sevenOnA fun _ => none] = some s ∧
      s.calls = [⟨[1], .returned true⟩, ⟨[2], .returned false⟩] ∧
      (s.nodes "a").get 7 Compute.keyOfSeven = .ok (some [1]) := by
  refine ⟨_, rfl, rfl, ?_⟩
  have hroute : RoutedTo Compute.sum64OfTwo Compute.keyOfSeven "a" sevenOnA := ⟨"b", 0, rfl⟩
  refine (@setNX_exclusive Compute.sum64OfTwo Compute.keyOfSeven "a" _ nodesOfSeven [.call [1], .call [2],
    .get 0 sevenOnA fun _ => none, .put 0 sevenOnA (fun _ => none) .working, .get 1 sevenOnA fun _ => none]
    rfl ?_ rfl).2 0 ⟨[1], .returned true⟩ rfl rfl
  refine ⟨trivial, fun s h => ?_⟩
  cases h
  refine ⟨trivial, fun s h => ?_⟩
  cases h
  refine ⟨⟨hroute, rfl, by decide⟩, fun s h => ?_⟩
  cases h
  refine ⟨hroute, fun s h => ?_⟩
  cases h
  exact ⟨⟨hroute, rfl, by decide⟩, fun _ _ => trivial⟩

/-- **Bug**: two calls return true: when both ask before either writes; and, one after the other, when the second's `Get`
does not reach the primary and is answered by the replica, which has not got the value yet. -/
theorem both_calls_set :
    (∃ s, run (setNXStep Compute.sum64OfTwo Compute.keyOfSeven) { nodes := nodesOfSeven, calls := [] }
        [.call [1], .call [2], .get 0 sevenOnA fun _ => none, .get 1 sevenOnA fun _ => none,
          .put 0 sevenOnA (fun _ => none) .working, .put 1 sevenOnA (fun _ => none) .working] = some s ∧
      s.calls = [⟨[1], .returned true⟩, ⟨[2], .returned true⟩]) ∧
    ∃ s, run (setNXStep Compute.sum64OfTwo Compute.keyOfSeven) { nodes := nodesOfSeven, calls := [] }
        [.call [1], .get 0 sevenOnA fun _ => none, .put 0 sevenOnA (fun _ => none) .working, .call [2],
          .get 1 sevenOnA fun node => if node = "a" then some "storage get failed: timeout" else none,
          .put 1 sevenOnA (fun _ => none) .working] = some s ∧
      s.calls = [⟨[1], .returned true⟩, ⟨[2], .returned true⟩] :=
  ⟨⟨_, rfl, rfl⟩, ⟨_, rfl, rfl⟩⟩

end RocksKV.Cluster
