import RocksKV.Lib.Simulation
import RocksKV.Metadata.Server
/-!
# Node records (`pkg/metadata/etcd.go:168-195`, `:208-225`, `:282-311`)

| here | there |
| --- | --- |
| `registerNode`          | `EtcdStore.RegisterNode`: the node with status "online", put whatever is there |
| `updateNodeStatus`, `get`, `put` | `EtcdStore.UpdateNodeStatus`: `GetNode`, then the record with the new status |
| `PutOutcome`            | a put that etcd has made, has made and not confirmed, has not made |

`ShutdownNode` (`router.go:602`, `:636`, `:801`) and `handleNodeFailure` (`failover.go:177`) set statuses on any metadata
server while nodes register. The halves of `UpdateNodeStatus` are no transaction; `serverStep` takes them for one step,
and does so rightly in the runs without another write of the record between them (`status_updates_atomic`).

**Bug**: a registration between them is overwritten with the record from before it. A storage node registers once
(`storage/server.go:1060-1081`), so the address it has moved to stays unknown.
-/

namespace RocksKV.Metadata

open Lib

inductive PutOutcome
  | done
  | unconfirmed (err : String)
  | failed (err : String)

namespace PutOutcome

def stored : PutOutcome → Bool
  | done | unconfirmed _ => true
  | failed _ => false

def error : PutOutcome → Option String
  | done => none
  | unconfirmed err | failed err => some err

end PutOutcome

/-- How far a call of `UpdateNodeStatus` is. -/
inductive StatusPhase
  | started
  | got (node : NodeInfo)
  | returned (error : Option String)

/-- The record a call has read. -/
def StatusPhase.node : StatusPhase → Option NodeInfo
  | got node => some node
  | _ => none

structure StatusCall where
  nodeID : String
  status : NodeStatus
  phase  : StatusPhase

structure RecordSys where
  /-- The records in etcd, by the id in their key. -/
  nodes : OrdMap String NodeInfo
  calls : List StatusCall

inductive RecordAct
  | registerNode (node : NodeInfo) (outcome : PutOutcome)
  | updateNodeStatus (nodeID : String) (status : NodeStatus)
  | get (i : Nat) (fails : Option String)
  | put (i : Nat) (outcome : PutOutcome)

def RecordSys.new : RecordSys := ⟨OrdMap.empty, []⟩

/-- What `GetNode` returns decides how the call goes on. -/
def afterGet (nodeID : String) (fails : Option String) (found : Option NodeInfo) : StatusPhase :=
  match fails, found with
  | some err, _ => .returned (some s!"failed to get node: {err}")
  | none, none => .returned (some s!"node {nodeID} not found")
  | none, some node => .got node

theorem node_afterGet {nodeID : String} {fails : Option String} {found : Option NodeInfo} {node : NodeInfo}
    (h : (afterGet nodeID fails found).node = some node) : found = some node := by
  cases fails <;> cases found <;> first | exact h | cases h

def recordStep (s : RecordSys) : RecordAct → Option RecordSys
  | .registerNode node outcome =>
    some { s with nodes := if outcome.stored then s.nodes.insert node.id { node with status := .online } else s.nodes }
  | .updateNodeStatus nodeID status => some { s with calls := s.calls ++ [⟨nodeID, status, .started⟩] }
  | .get i fails =>
    match s.calls[i]? with
    | some ⟨nodeID, status, .started⟩ =>
      some { s with calls := s.calls.set i ⟨nodeID, status, afterGet nodeID fails (s.nodes.get nodeID)⟩ }
    | _ => none
  | .put i outcome =>
    match s.calls[i]? with
    | some ⟨nodeID, status, .got node⟩ =>
      some
        { nodes := if outcome.stored then s.nodes.insert nodeID { node with status := status } else s.nodes
          calls := s.calls.set i
            ⟨nodeID, status, .returned (outcome.error.map fun err => s!"failed to update node status: {err}")⟩ }
    | _ => none

/-- The writes of a step, as requests of the server's model. -/
def recordEvents (s : RecordSys) : RecordAct → List ServerAct
  | .registerNode node outcome => if outcome.stored then [.registerNode node] else []
  | .put i outcome =>
    match s.calls[i]? with
    | some ⟨nodeID, status, .got _⟩ => if outcome.stored then [.updateNodeStatus nodeID status] else []
    | _ => []
  | _ => []

/-! ## Undisturbed updates -/

/-- The call has read the record of `nodeID` and is about to write it. -/
def StatusCall.Halfway (nodeID : String) (call : StatusCall) : Prop :=
  call.nodeID = nodeID ∧ call.phase.node.isSome

instance (nodeID : String) (call : StatusCall) : Decidable (call.Halfway nodeID) := inferInstanceAs (Decidable (_ ∧ _))

/-- The step writes no record that another call is about to write. -/
def NothingBetween (s : RecordSys) : RecordAct → Prop
  | .registerNode node outcome => outcome.stored = true → ∀ call ∈ s.calls, ¬ call.Halfway node.id
  | .put i outcome => outcome.stored = true → ∀ own ∈ s.calls[i]?, ∀ call ∈ s.calls.eraseIdx i,
      ¬ call.Halfway own.nodeID
  | _ => True

instance (s : RecordSys) : ∀ a : RecordAct, Decidable (NothingBetween s a)
  | .registerNode node outcome =>
    inferInstanceAs (Decidable (outcome.stored = true → ∀ call ∈ s.calls, ¬ call.Halfway node.id))
  | .put i outcome => inferInstanceAs (Decidable (outcome.stored = true → ∀ own ∈ s.calls[i]?,
      ∀ call ∈ s.calls.eraseIdx i, ¬ call.Halfway own.nodeID))
  | .updateNodeStatus _ _ => isTrue trivial
  | .get _ _ => isTrue trivial

/-- The records are under their ids, and what a call has read is still there. -/
structure RecordInv (s : RecordSys) : Prop where
  keyed   : ∀ id node, s.nodes.get id = some node → node.id = id
  current : ∀ call ∈ s.calls, ∀ node, call.phase.node = some node → s.nodes.get call.nodeID = some node

theorem recordInv_new : RecordInv .new where
  keyed _ _ h := by cases h
  current _ h := by cases h

/-- A write to a record, with the calls that are about to write others. -/
theorem RecordInv.insert {s : RecordSys} (h : RecordInv s) {key : String} {record : NodeInfo} {calls : List StatusCall}
    (hkey : record.id = key)
    (hcalls : ∀ call ∈ calls, call.phase.node.isSome → call ∈ s.calls ∧ ¬ call.Halfway key) :
    RecordInv ⟨s.nodes.insert key record, calls⟩ where
  keyed id node hnode := by
    rw [OrdMap.get_insert] at hnode
    split_ifs at hnode with hid
    · cases hnode
      rw [hkey, hid]
    · exact h.keyed id node hnode
  current call hcall node hnode := by
    have hsome : call.phase.node.isSome := Option.isSome_iff_exists.2 ⟨node, hnode⟩
    obtain ⟨hold, hother⟩ := hcalls call hcall hsome
    have hne : call.nodeID ≠ key := fun heq => hother ⟨heq, hsome⟩
    exact (OrdMap.get_insert_ne _ _ hne).trans (h.current call hold node hnode)

theorem recordInv_step (s : RecordSys) (a : RecordAct) (s' : RecordSys) (h : RecordInv s) (hc : NothingBetween s a)
    (hstep : recordStep s a = some s') : RecordInv s' := by
  cases a with
  | registerNode node outcome =>
    cases hstep
    split_ifs with hstored
    · exact h.insert rfl fun call hcall _ => ⟨hcall, hc hstored call hcall⟩
    · exact h
  | updateNodeStatus nodeID status =>
    cases hstep
    refine ⟨h.keyed, fun call hcall node hnode => ?_⟩
    rcases List.mem_append.1 hcall with hold | hnew
    · exact h.current call hold node hnode
    · rw [List.mem_singleton.1 hnew] at hnode
      cases hnode
  | get i fails =>
    simp only [recordStep] at hstep
    split at hstep <;> cases hstep
    rename_i nodeID status hi
    refine ⟨h.keyed, fun call hcall node hnode => ?_⟩
    rcases List.mem_or_eq_of_mem_set hcall with hold | rfl
    · exact h.current call hold node hnode
    · exact node_afterGet hnode
  | put i outcome =>
    simp only [recordStep] at hstep
    split at hstep <;> cases hstep
    rename_i nodeID status node hi
    have hget : s.nodes.get nodeID = some node := h.current _ (List.mem_of_getElem? hi) node rfl
    have hid : node.id = nodeID := h.keyed _ _ hget
    have hothers : ∀ error, ∀ call ∈ s.calls.set i ⟨nodeID, status, .returned error⟩, call.phase.node.isSome →
        call ∈ s.calls.eraseIdx i := by
      intro error call hcall hsome
      obtain ⟨j, hj⟩ := List.mem_iff_getElem?.1 hcall
      rcases getElem?_set_eq_some hj with ⟨-, rfl⟩ | ⟨hne, hold⟩
      · cases hsome
      · exact List.mem_eraseIdx_iff_getElem?.2 ⟨j, hne, hold⟩
    split_ifs with hstored
    · exact h.insert hid fun call hcall hsome => ⟨List.mem_of_mem_eraseIdx (hothers _ call hcall hsome),
        hc hstored _ hi call (hothers _ call hcall hsome)⟩
    · exact ⟨h.keyed, fun call hcall n hn => h.current call
        (List.mem_of_mem_eraseIdx (hothers _ call hcall (Option.isSome_iff_exists.2 ⟨n, hn⟩))) n hn⟩

/-- The request, as `serverStep` takes it, turns the one registry into the other. -/
def Registers (hash : String → UInt32) (nodes : OrdMap String NodeInfo) (a : ServerAct) (nodes' : OrdMap String NodeInfo) :
    Prop :=
  ∀ s : ServerSys, s.nodes = nodes → ∃ s', serverStep hash s a = some s' ∧ s'.nodes = nodes'

theorem registers_step (hash : String → UInt32) (s : RecordSys) (a : RecordAct) (s' : RecordSys) (h : RecordInv s)
    (hstep : recordStep s a = some s') : Steps (Registers hash) s.nodes (recordEvents s a) s'.nodes := by
  cases a with
  | registerNode node outcome =>
    cases hstep
    simp only [recordEvents]
    split_ifs
    · refine .single fun server hserver => ⟨_, rfl, ?_⟩
      rw [← hserver]
      rfl
    · exact .nil
  | updateNodeStatus nodeID status =>
    cases hstep
    exact .nil
  | get i fails =>
    simp only [recordStep] at hstep
    split at hstep <;> cases hstep
    exact .nil
  | put i outcome =>
    simp only [recordStep] at hstep
    split at hstep <;> cases hstep
    rename_i nodeID status node hi
    have hget : s.nodes.get nodeID = some node := h.current _ (List.mem_of_getElem? hi) node rfl
    simp only [recordEvents, hi]
    split_ifs
    · refine .single fun server hserver => ⟨server.setNodeStatus node status, ?_, ?_⟩
      · simp only [serverStep, hserver, hget, Option.map_some]
      · rw [ServerSys.setNodeStatus, hserver, h.keyed _ _ hget]
    · exact .nil

/-- What a request makes of the record of `id`. -/
def recordAfter (id : String) (record : Option NodeInfo) : ServerAct → Option NodeInfo
  | .registerNode node => if node.id = id then some { node with status := .online } else record
  | .updateNodeStatus nodeID status => if nodeID = id then record.map fun node => { node with status := status } else record
  | _ => record

theorem get_step (s : RecordSys) (a : RecordAct) (s' : RecordSys) (h : RecordInv s) (hstep : recordStep s a = some s')
    (id : String) : s'.nodes.get id = (recordEvents s a).foldl (recordAfter id) (s.nodes.get id) := by
  cases a with
  | registerNode node outcome =>
    cases hstep
    simp only [recordEvents]
    split_ifs
    · simp [recordAfter, OrdMap.get_insert, eq_comm]
    · rfl
  | updateNodeStatus nodeID status =>
    cases hstep
    rfl
  | get i fails =>
    simp only [recordStep] at hstep
    split at hstep <;> cases hstep
    rfl
  | put i outcome =>
    simp only [recordStep] at hstep
    split at hstep <;> cases hstep
    rename_i nodeID status node hi
    have hget : s.nodes.get nodeID = some node := h.current _ (List.mem_of_getElem? hi) node rfl
    simp only [recordEvents, hi]
    split_ifs
    · by_cases hid : nodeID = id
      · subst hid
        simp [recordAfter, hget]
      · simp [recordAfter, OrdMap.get_insert_ne _ _ (Ne.symm hid), hid]
    · rfl

/-- **Status updates are atomic where nothing falls between their halves.** However registrations and status updates of
any number of servers interleave and fail: if none writes a record that another is about to write, the registry goes
through what `serverStep` does for the puts that etcd has made, in their order; a node's record is that of its last
registration, with the last status set since. -/
theorem status_updates_atomic (hash : String → UInt32) {as : List RecordAct} {s : RecordSys}
    (hc : Along recordStep NothingBetween .new as) (hrun : run recordStep .new as = some s) :
    Steps (Registers hash) OrdMap.empty (trace recordStep recordEvents .new as) s.nodes ∧
      ∀ id, s.nodes.get id = (trace recordStep recordEvents .new as).foldl (recordAfter id) none := by
  have hsteps : Steps (Registers hash) RecordSys.new.nodes (trace recordStep recordEvents .new as) s.nodes :=
    steps_of_run recordInv_step (fun s a s' h _ hstep => registers_step hash s a s' h hstep) recordInv_new hc hrun
  refine ⟨hsteps, ?_⟩
  have hnew : RecordInv .new ∧ ∀ id, RecordSys.new.nodes.get id = ([] : List ServerAct).foldl (recordAfter id) none :=
    ⟨recordInv_new, fun _ => rfl⟩
  refine (run_inv_trace (P := fun past t => RecordInv t ∧ ∀ id, t.nodes.get id = past.foldl (recordAfter id) none)
    (fun past t a t' ht hca hstep => ?_) hnew hc hrun).2
  refine ⟨recordInv_step t a t' ht.1 hca hstep, fun id => ?_⟩
  rw [List.foldl_append, ← ht.2 id]
  exact get_step t a t' ht.1 hstep id

/-- Node A registers, starts to drain while B registers, and registers again from another address. -/
def movesAfter : List RecordAct :=
  [.registerNode ⟨"A", "a1", .storage, .online⟩ .done, .updateNodeStatus "A" .draining, .get 0 none,
    .registerNode ⟨"B", "b1", .storage, .online⟩ (.unconfirmed "timeout"), .put 0 .done,
    .registerNode ⟨"A", "a2", .storage, .online⟩ .done]

theorem status_updates_atomic_moves_after :
    ∃ s, run recordStep .new movesAfter = some s ∧
      Steps (Registers fun _ => 0) OrdMap.empty (trace recordStep recordEvents .new movesAfter) s.nodes ∧
      s.nodes.get "A" = some ⟨"A", "a2", .storage, .online⟩ := by
  obtain ⟨hsteps, hget⟩ := @status_updates_atomic (fun _ => 0) movesAfter _ (by decide +kernel) rfl
  exact ⟨_, rfl, hsteps, (hget "A").trans (by decide +kernel)⟩

/-! ## All interleavings -/

/-- The record is that of a registration, with a status that has been set. -/
def FromRegistration (past : List ServerAct) (id : String) (record : NodeInfo) : Prop :=
  record.id = id ∧ (∃ node, .registerNode node ∈ past ∧ node.id = id ∧ record.addr = node.addr ∧ record.role = node.role) ∧
    (record.status = .online ∨ .updateNodeStatus id record.status ∈ past)

theorem FromRegistration.mono {past new : List ServerAct} {id : String} {record : NodeInfo}
    (h : FromRegistration past id record) : FromRegistration (past ++ new) id record := by
  obtain ⟨hid, ⟨node, hmem, hnode⟩, hstatus⟩ := h
  exact ⟨hid, ⟨node, List.mem_append_left _ hmem, hnode⟩, hstatus.imp_right (List.mem_append_left _)⟩

/-- Every record, and every record that a call has read, is that of a registration. -/
def AllFromRegistrations (past : List ServerAct) (s : RecordSys) : Prop :=
  (∀ id record, s.nodes.get id = some record → FromRegistration past id record) ∧
    ∀ call ∈ s.calls, ∀ record, call.phase.node = some record → FromRegistration past call.nodeID record

theorem allFromRegistrations_step (past : List ServerAct) (s : RecordSys) (a : RecordAct) (s' : RecordSys)
    (h : AllFromRegistrations past s) (_ : True) (hstep : recordStep s a = some s') :
    AllFromRegistrations (past ++ recordEvents s a) s' := by
  obtain ⟨hnodes, hcalls⟩ := h
  cases a with
  | registerNode node outcome =>
    cases hstep
    refine ⟨fun id record hrecord => ?_, fun call hcall record hrecord => (hcalls call hcall record hrecord).mono⟩
    simp only [recordEvents]
    split_ifs at hrecord ⊢
    · rw [OrdMap.get_insert] at hrecord
      split_ifs at hrecord with hid
      · cases hrecord
        exact ⟨hid.symm, ⟨node, by simp, hid.symm, rfl, rfl⟩, .inl rfl⟩
      · exact (hnodes id record hrecord).mono
    · exact (hnodes id record hrecord).mono
  | updateNodeStatus nodeID status =>
    cases hstep
    refine ⟨fun id record hrecord => (hnodes id record hrecord).mono, fun call hcall record hrecord => ?_⟩
    rcases List.mem_append.1 hcall with hold | hnew
    · exact (hcalls call hold record hrecord).mono
    · rw [List.mem_singleton.1 hnew] at hrecord
      cases hrecord
  | get i fails =>
    simp only [recordStep] at hstep
    split at hstep <;> cases hstep
    refine ⟨fun id record hrecord => (hnodes id record hrecord).mono, fun call hcall record hrecord => ?_⟩
    rcases List.mem_or_eq_of_mem_set hcall with hold | rfl
    · exact (hcalls call hold record hrecord).mono
    · exact (hnodes _ record (node_afterGet hrecord)).mono
  | put i outcome =>
    simp only [recordStep] at hstep
    split at hstep <;> cases hstep
    rename_i nodeID status node hi
    refine ⟨fun id record hrecord => ?_, fun call hcall record hrecord => ?_⟩
    · simp only [recordEvents, hi]
      split_ifs at hrecord ⊢
      · rw [OrdMap.get_insert] at hrecord
        split_ifs at hrecord with hid
        · cases hrecord
          obtain ⟨hkey, ⟨n, hmem, hn⟩, -⟩ := hcalls _ (List.mem_of_getElem? hi) node rfl
          subst hid
          exact ⟨hkey, ⟨n, List.mem_append_left _ hmem, hn⟩, .inr (by simp)⟩
        · exact (hnodes id record hrecord).mono
      · exact (hnodes id record hrecord).mono
    · rcases List.mem_or_eq_of_mem_set hcall with hold | rfl
      · exact (hcalls call hold record hrecord).mono
      · cases hrecord

/-- **No record is made up.** In every interleaving a record is under its node's id, its address and role are those of
one registration of the node, and its status is "online" or one that was set for it. -/
theorem records_registered {as : List RecordAct} {s : RecordSys} (hrun : run recordStep .new as = some s) {id : String}
    {record : NodeInfo} (hrecord : s.nodes.get id = some record) :
    FromRegistration (trace recordStep recordEvents .new as) id record := by
  have hnew : AllFromRegistrations [] RecordSys.new := ⟨fun _ _ h => (by cases h), fun _ h => (by cases h)⟩
  have hany : Along recordStep (fun _ _ => True) RecordSys.new as := along_of_forall_mem fun _ _ _ => trivial
  exact (run_inv_trace allFromRegistrations_step hnew hany hrun).1 id record hrecord

/-- Node A registers again between the halves of the update: its new address is overwritten. -/
def movesBefore : List RecordAct :=
  [.registerNode ⟨"A", "a1", .storage, .online⟩ .done, .updateNodeStatus "A" .draining, .get 0 none,
    .registerNode ⟨"A", "a2", .storage, .online⟩ .done, .put 0 .done]

theorem records_registered_moves_before :
    ∃ s, run recordStep .new movesBefore = some s ∧
      s.nodes.get "A" = some ⟨"A", "a1", .storage, .draining⟩ ∧
      FromRegistration (trace recordStep recordEvents .new movesBefore) "A" ⟨"A", "a1", .storage, .draining⟩ :=
  ⟨_, rfl, by decide +kernel, @records_registered movesBefore _ rfl "A" _ (by decide +kernel)⟩

end RocksKV.Metadata
