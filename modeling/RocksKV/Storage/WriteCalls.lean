import RocksKV.Lib.Run
import RocksKV.Storage.Frozen
/-!
# Write handlers step by step (`pkg/storage/server.go:354-416` and its siblings, `pkg/storage/partition.go:240-367`)

| here | there |
| --- | --- |
| `HandlerPhase`       | how far a handler is; between two phases it holds no lock |
| `started` to `validated` | `canWrite`, `HasPartition`, `IsPrimary`, `ValidateEpoch` (`server.go:361-394`) |
| `present`            | `HasPartition` in `PartitionManager.Put`, `Delete`, `BatchPut` (`partition.go:318`, `:333`, `:348`) |
| `writable`           | `GetPartition` and the status (`:322-325`); the field handlers have no such check |
| `stored`             | the RocksDB write; the append to the log follows |
| `PartitionEdit`      | the manager's methods that hold its lock (`partition.go:149-238`, `:282-303`), as route updates, `ExportSST` and `IngestSST` call them |
| `NodeAct.loseLease`, `releaseAllLeases` | `monitorNodeLease` (`server.go:1296-1316`); `Stop` (`:206-242`) |

`Server.serve` makes a request in one step; a handler that nothing falls into does the same (`advance_serve`). Here the
handlers of any number of requests, the lease and the manager take their steps in any order. What a handler has checked
may no longer hold when it writes; what never holds again keeps out all handlers that have not checked it yet
(`stays_out`).

**Bug**: `Put` looks the partition up twice and does not expect it to go in between: a route update that removes it makes
the handler follow a nil pointer (`panics_only_if_removed`).
-/

namespace RocksKV.Storage

open Lib

inductive HandlerPhase
  | started
  | leased
  | hosted
  | primary
  | validated
  | present
  | writable
  | stored
  | returned (response : WriteResponse)
  | panicked
  deriving DecidableEq

structure WriteCall where
  req   : WriteRequest
  phase : HandlerPhase
  deriving DecidableEq

/-- The states in which `PartitionManager` makes the write. -/
def WriteOp.writableIn : WriteOp → List Pb.PartitionStatus
  | .delete _ => [.normal]
  | _ => [.normal, .migratingIn]

/-- The next step of a handler. -/
def advance (s : Server) (disk : Disk) (req : WriteRequest) : HandlerPhase → Option (Server × HandlerPhase)
  | .started => some (s, if s.canWrite then .leased else .returned (.refused .internalError))
  | .leased => some (s, if s.pm.hasPartition req.partitionId then .hosted else .returned (.refused .partitionNotFound))
  | .hosted => some (s, if s.pm.isPrimary req.partitionId then .primary else .returned (.refused .notPrimary))
  | .primary =>
    match s.pm.validateEpoch req.partitionId req.epoch with
    | .error _ => some (s, .returned (.refused .epochFenced))
    | .ok () => some (s, .validated)
  | .validated =>
    if req.op.plain then
      some (s, if s.pm.hasPartition req.partitionId then .present else .returned (.refused .internalError))
    else some (s, .writable)
  | .present =>
    match s.pm.partitions.get req.partitionId with
    -- `partition.Status` of a nil pointer
    | none => some (s, .panicked)
    | some q => some (s, if q.status ∈ req.op.writableIn then .writable else .returned (.refused .internalError))
  | .writable =>
    match disk.commit s.db (s.db.write (req.op.writes req.partitionId)) with
    | (db, none) => some ({ s with pm := { s.pm with db := db } }, .stored)
    | (db, some _) => some ({ s with pm := { s.pm with db := db } }, .returned (.refused .internalError))
  | .stored => some (s.logOn disk req.partitionId req.op, .returned (.accepted (Server.countOf req.op)))
  | .returned _ | .panicked => none

inductive PartitionEdit
  | add (p : UInt32) (isPrimary : Bool) (epoch : UInt64)
  | updateEpoch (p : UInt32) (epoch : UInt64)
  | setStatus (p : UInt32) (status : Pb.PartitionStatus)
  | remove (p : UInt32)

def PartitionEdit.apply (pm : PartitionManager) : PartitionEdit → Except String PartitionManager
  | add p isPrimary epoch => pm.addPartitionWithEpoch p isPrimary epoch
  | updateEpoch p epoch => pm.updatePartitionEpoch p epoch
  | setStatus p status => pm.setPartitionStatus p status
  | remove p => pm.removePartition p

structure CallSys where
  server : Server
  calls  : List WriteCall

inductive NodeAct
  | call (req : WriteRequest)
  | advance (i : Nat) (disk : Disk)
  | loseLease
  | releaseAllLeases
  | edit (e : PartitionEdit)
  /-- `initializeReplicator` or `stopReplicator`. -/
  | setReplicators (replicators : OrdMap UInt32 Replicator)
  /-- `Replicate`, `IngestSST`, the removal of a partition's data. -/
  | otherWriter (writes : List (Write Bytes Bytes))

def nodeStep (s : CallSys) : NodeAct → Option CallSys
  | .call req => some { s with calls := s.calls ++ [⟨req, .started⟩] }
  | .advance i disk =>
    match s.calls[i]? with
    | none => none
    | some ⟨req, phase⟩ =>
      (advance s.server disk req phase).map fun r => { server := r.1, calls := s.calls.set i ⟨req, r.2⟩ }
  | .loseLease => some { s with server := { s.server with nodeLeaseLost := true } }
  | .releaseAllLeases => some { s with server := { s.server with nodeLease := 0, nodeLeaseLost := true } }
  | .edit e =>
    match e.apply s.server.pm with
    | .error _ => some s
    | .ok pm => some { s with server := { s.server with pm := pm } }
  | .setReplicators replicators => some { s with server := { s.server with replicators := replicators } }
  | .otherWriter writes =>
    some { s with server := { s.server with pm := { s.server.pm with db := s.server.db.write writes } } }

/-! ## A handler that nothing falls into -/

/-- One handler on its own. -/
def alone (s : Server) (req : WriteRequest) (phase : HandlerPhase) : CallSys := ⟨s, [⟨req, phase⟩]⟩

/-- The handler gets from the one point to the other. -/
def Gets (disk : Disk) (req : WriteRequest) (s : Server) (phase : HandlerPhase) (s' : Server) (phase' : HandlerPhase) :
    Prop :=
  ∃ n, run nodeStep (alone s req phase) (List.replicate n (.advance 0 disk)) = some (alone s' req phase')

section
variable {disk : Disk} {req : WriteRequest} {s s' t : Server} {phase phase' last : HandlerPhase}

theorem Gets.refl : Gets disk req s phase s phase := ⟨0, rfl⟩

theorem Gets.step (h : advance s disk req phase = some (s', phase')) (hrest : Gets disk req s' phase' t last) :
    Gets disk req s phase t last := by
  obtain ⟨n, hn⟩ := hrest
  refine ⟨n + 1, run_cons.2 ⟨alone s' req phase', ?_, hn⟩⟩
  simp [nodeStep, alone, h]

theorem Gets.trans (h : Gets disk req s phase s' phase') (hrest : Gets disk req s' phase' t last) :
    Gets disk req s phase t last := by
  obtain ⟨m, hm⟩ := h
  obtain ⟨n, hn⟩ := hrest
  exact ⟨m + n, by rw [← List.replicate_append_replicate]; exact run_append hm hn⟩

end

/-- What `PartitionManager` makes of the write where the partition is hosted. -/
theorem writeDB_hosted {s : Server} {p : UInt32} {q : Partition} (hq : s.pm.partitions.get p = some q) (op : WriteOp) :
    (op.plain = true → q.status ∉ op.writableIn → ∃ e, s.writeDB p op = .error e) ∧
    ((op.plain = true → q.status ∈ op.writableIn) →
      s.writeDB p op = .ok { s.pm with db := s.db.write (op.writes p) }) := by
  have hmanaged : ∀ (statuses : List Pb.PartitionStatus) (writes : List (Write Bytes Bytes)),
      (q.status ∉ statuses → ∃ e, s.pm.writeIf p statuses writes = .error e) ∧
      (q.status ∈ statuses → s.pm.writeIf p statuses writes = .ok { s.pm with db := s.db.write writes }) := by
    intro statuses writes
    simp only [PartitionManager.writeIf, hq]
    exact ⟨fun hst => ⟨_, if_neg hst⟩, fun hst => if_pos hst⟩
  cases op with
  | put key value => exact ⟨fun _ => (hmanaged _ _).1, fun hst => (hmanaged _ _).2 (hst rfl)⟩
  | delete key => exact ⟨fun _ => (hmanaged _ _).1, fun hst => (hmanaged _ _).2 (hst rfl)⟩
  | batchPut items => exact ⟨fun _ => (hmanaged _ _).1, fun hst => (hmanaged _ _).2 (hst rfl)⟩
  | setFields pk fields => exact ⟨fun hplain => Bool.noConfusion hplain, fun _ => rfl⟩
  | deleteField pk name => exact ⟨fun hplain => Bool.noConfusion hplain, fun _ => rfl⟩

section
variable {disk : Disk} {req : WriteRequest} {s : Server} {q : Partition}

theorem advance_leased (h : s.canWrite = true) : advance s disk req .started = some (s, .leased) := by
  simp [advance, h]

theorem advance_hosted (h : s.pm.hasPartition req.partitionId = true) :
    advance s disk req .leased = some (s, .hosted) := by
  simp [advance, h]

theorem advance_primary (h : s.pm.isPrimary req.partitionId = true) :
    advance s disk req .hosted = some (s, .primary) := by
  simp [advance, h]

/-- The checks of `server.go`. -/
theorem gets_validated (hcheck : s.checkWrite req.partitionId req.epoch = .ok ()) :
    Gets disk req s .started s .validated := by
  unfold Server.checkWrite at hcheck
  split_ifs at hcheck with hcan hhas hprime
  simp only [Bool.not_eq_true, Bool.not_eq_false'] at hcan hhas hprime
  have hepoch : s.pm.validateEpoch req.partitionId req.epoch = .ok () := by
    split at hcheck
    · cases hcheck
    · assumption
  have hvalidated : advance s disk req .primary = some (s, .validated) := by simp [advance, hepoch]
  exact .step (advance_leased hcan) (.step (advance_hosted hhas) (.step (advance_primary hprime) (.step hvalidated .refl)))

theorem gets_refused {e : Pb.ErrorCode} (hcheck : s.checkWrite req.partitionId req.epoch = .error e) :
    Gets disk req s .started s (.returned (.refused e)) := by
  unfold Server.checkWrite at hcheck
  split_ifs at hcheck with hcan hhas hprime <;> simp only [Bool.not_eq_true', Bool.not_eq_false] at *
  · cases hcheck
    exact .step (by simp [advance, hcan]) .refl
  · cases hcheck
    exact .step (advance_leased hcan) (.step (by simp [advance, hhas]) .refl)
  · cases hcheck
    exact .step (advance_leased hcan) (.step (advance_hosted hhas) (.step (by simp [advance, hprime]) .refl))
  · split at hcheck <;> cases hcheck
    rename_i err hepoch
    exact .step (advance_leased hcan) (.step (advance_hosted hhas) (.step (advance_primary hprime)
      (.step (by simp [advance, hepoch]) .refl)))

/-- The checks of the partition manager. -/
theorem gets_writable (hq : s.pm.partitions.get req.partitionId = some q)
    (hstatus : req.op.plain = true → q.status ∈ req.op.writableIn) : Gets disk req s .validated s .writable := by
  cases hplain : req.op.plain with
  | false => exact .step (by simp [advance, hplain]) .refl
  | true =>
    have hpresent : advance s disk req .validated = some (s, .present) := by
      simp [advance, hplain, PartitionManager.hasPartition_eq_true.2 ⟨q, hq⟩]
    exact .step hpresent (.step (by simp [advance, hq, hstatus hplain]) .refl)

theorem gets_unwritable (hq : s.pm.partitions.get req.partitionId = some q) (hplain : req.op.plain = true)
    (hstatus : q.status ∉ req.op.writableIn) :
    Gets disk req s .validated s (.returned (.refused .internalError)) := by
  have hpresent : advance s disk req .validated = some (s, .present) := by
    simp [advance, hplain, PartitionManager.hasPartition_eq_true.2 ⟨q, hq⟩]
  exact .step hpresent (.step (by simp [advance, hq, hstatus]) .refl)

end

/-- **A handler that nothing falls into** is `serve`. -/
theorem advance_serve (s : Server) (disk : Disk) (req : WriteRequest) :
    Gets disk req s .started (s.serve disk req).1 (.returned (s.serve disk req).2) := by
  rw [Server.serve_eq]
  unfold Server.respond
  cases hcheck : s.checkWrite req.partitionId req.epoch with
  | error e => exact gets_refused hcheck
  | ok u =>
    obtain ⟨q, hq, -, -⟩ := Server.checkWrite_ok hcheck
    obtain ⟨hrefuses, hwrites⟩ := writeDB_hosted hq req.op
    by_cases hstatus : req.op.plain = true → q.status ∈ req.op.writableIn
    · refine (gets_validated hcheck).trans ((gets_writable hq hstatus).trans ?_)
      simp only [hwrites hstatus, Disk.run, Server.db]
      rcases hcommit : disk.commit s.pm.db (s.pm.db.write (req.op.writes req.partitionId)) with ⟨db, _ | e⟩
      · have hstored : advance s disk req .writable = some ({ s with pm := { s.pm with db := db } }, .stored) := by
          simp only [advance, Server.db, hcommit]
        exact .step hstored (.step rfl .refl)
      · have hfailed : advance s disk req .writable =
            some ({ s with pm := { s.pm with db := db } }, .returned (.refused .internalError)) := by
          simp only [advance, Server.db, hcommit]
        exact .step hfailed .refl
    · obtain ⟨hplain, hnot⟩ := Classical.not_imp.1 hstatus
      obtain ⟨e, he⟩ := hrefuses hplain hnot
      simp only [he, Disk.run]
      exact (gets_validated hcheck).trans (gets_unwritable hq hplain hnot)

/-! ## Checks that keep calls out -/

namespace PartitionEdit

theorem modify_ok {pm pm' : PartitionManager} {r : UInt32} {f : Partition → Partition} (h : pm.modify r f = .ok pm') :
    ∃ q, pm.partitions.get r = some q ∧ pm' = { pm with partitions := pm.partitions.insert r (f q) } := by
  unfold PartitionManager.modify at h
  split at h <;> cases h
  exact ⟨_, by assumption, rfl⟩

theorem apply_db {e : PartitionEdit} {pm pm' : PartitionManager} (h : e.apply pm = .ok pm') : pm'.db = pm.db := by
  cases e with
  | add r isPrimary epoch =>
    simp only [apply, PartitionManager.addPartitionWithEpoch] at h
    split_ifs at h
    cases h
    rfl
  | updateEpoch r epoch =>
    obtain ⟨-, -, rfl⟩ := modify_ok h
    rfl
  | setStatus r status =>
    obtain ⟨-, -, rfl⟩ := modify_ok h
    rfl
  | remove r =>
    simp only [apply, PartitionManager.removePartition] at h
    split_ifs at h
    cases h
    rfl

/-- Only a removal takes a partition away, and only `SetPartitionStatus` changes its status. -/
theorem apply_hosted {e : PartitionEdit} {pm pm' : PartitionManager} (h : e.apply pm = .ok pm') {p : UInt32}
    {q : Partition} (hq : pm.partitions.get p = some q) : e = .remove p ∨
      ∃ q', pm'.partitions.get p = some q' ∧ (q'.status = q.status ∨ e = .setStatus p q'.status) := by
  cases e with
  | add r isPrimary epoch =>
    simp only [apply, PartitionManager.addPartitionWithEpoch] at h
    split_ifs at h with hhas
    cases h
    have hne : p ≠ r := by
      rintro rfl
      exact hhas (PartitionManager.hasPartition_eq_true.2 ⟨q, hq⟩)
    exact .inr ⟨q, (OrdMap.get_insert_ne _ _ hne).trans hq, .inl rfl⟩
  | updateEpoch r epoch =>
    obtain ⟨q', hq', rfl⟩ := modify_ok h
    by_cases hpr : p = r
    · subst hpr
      rw [hq] at hq'
      cases hq'
      refine .inr ⟨_, OrdMap.get_insert_self _ _ _, .inl ?_⟩
      split_ifs <;> rfl
    · exact .inr ⟨q, (OrdMap.get_insert_ne _ _ hpr).trans hq, .inl rfl⟩
  | setStatus r status =>
    obtain ⟨q', hq', rfl⟩ := modify_ok h
    by_cases hpr : p = r
    · subst hpr
      exact .inr ⟨_, OrdMap.get_insert_self _ _ _, .inr rfl⟩
    · exact .inr ⟨q, (OrdMap.get_insert_ne _ _ hpr).trans hq, .inl rfl⟩
  | remove r =>
    simp only [apply, PartitionManager.removePartition] at h
    split_ifs at h
    cases h
    by_cases hpr : p = r
    · exact .inl (by rw [hpr])
    · exact .inr ⟨q, by simp [OrdMap.get_erase, hpr, hq], .inl rfl⟩

end PartitionEdit

/-- What a step does to the calls. -/
inductive CallStep (s : CallSys) : NodeAct → CallSys → Prop
  | call (req : WriteRequest) : CallStep s (.call req) { s with calls := s.calls ++ [⟨req, .started⟩] }
  | advance {i : Nat} {disk : Disk} {req : WriteRequest} {phase phase' : HandlerPhase} {server : Server}
    (hi : s.calls[i]? = some ⟨req, phase⟩) (h : Storage.advance s.server disk req phase = some (server, phase')) :
    CallStep s (.advance i disk) { server := server, calls := s.calls.set i ⟨req, phase'⟩ }
  | lease (a : NodeAct) {server : Server} (hpm : server.pm = s.server.pm)
    (hlease : server.canWrite = true → s.server.canWrite = true) : CallStep s a { s with server := server }
  | edit {e : PartitionEdit} {pm : PartitionManager} (h : e.apply s.server.pm = .ok pm) :
    CallStep s (.edit e) { s with server := { s.server with pm := pm } }
  | otherWriter (writes : List (Write Bytes Bytes)) : CallStep s (.otherWriter writes)
      { s with server := { s.server with pm := { s.server.pm with db := s.server.db.write writes } } }

theorem nodeStep_cases {s s' : CallSys} {a : NodeAct} (h : nodeStep s a = some s') : CallStep s a s' := by
  cases a with
  | call req =>
    cases h
    exact .call req
  | advance i disk =>
    simp only [nodeStep] at h
    split at h
    · cases h
    · rename_i req phase hi
      obtain ⟨⟨server, phase'⟩, hadv, rfl⟩ := Option.map_eq_some_iff.1 h
      exact .advance hi hadv
  | loseLease =>
    cases h
    exact .lease _ rfl (by simp [Server.canWrite])
  | releaseAllLeases =>
    cases h
    exact .lease _ rfl (by simp [Server.canWrite])
  | edit e =>
    simp only [nodeStep] at h
    split at h <;> cases h
    · exact .lease _ rfl id
    · rename_i pm hpm
      exact .edit hpm
  | setReplicators replicators =>
    cases h
    exact .lease _ rfl id
  | otherWriter writes =>
    cases h
    exact .otherWriter writes

/-- What a handler's own step does to the server. -/
theorem advance_server {s s' : Server} {disk : Disk} {req : WriteRequest} {phase phase' : HandlerPhase}
    (h : advance s disk req phase = some (s', phase')) :
    s'.canWrite = s.canWrite ∧ s'.pm.partitions = s.pm.partitions := by
  cases phase with
  | started | leased | hosted =>
    cases h
    exact ⟨rfl, rfl⟩
  | primary =>
    simp only [advance] at h
    split at h <;> cases h <;> exact ⟨rfl, rfl⟩
  | validated =>
    simp only [advance] at h
    split_ifs at h <;> cases h <;> exact ⟨rfl, rfl⟩
  | present =>
    simp only [advance] at h
    split at h <;> cases h <;> exact ⟨rfl, rfl⟩
  | writable =>
    simp only [advance] at h
    split at h <;> cases h <;> exact ⟨rfl, rfl⟩
  | stored =>
    cases h
    exact ⟨s.logOn_canWrite disk _ _, by rw [s.logOn_pm]⟩
  | returned response => cases h
  | panicked => cases h

/-- It writes only where the handler has passed every check. -/
theorem advance_db {s s' : Server} {disk : Disk} {req : WriteRequest} {phase phase' : HandlerPhase}
    (h : advance s disk req phase = some (s', phase')) :
    s'.db = s.db ∨ phase = .writable ∧ s'.db = s.db.write (req.op.writes req.partitionId) := by
  cases phase with
  | started | leased | hosted =>
    cases h
    exact .inl rfl
  | primary =>
    simp only [advance] at h
    split at h <;> cases h <;> exact .inl rfl
  | validated =>
    simp only [advance] at h
    split_ifs at h <;> cases h <;> exact .inl rfl
  | present =>
    simp only [advance] at h
    split at h <;> cases h <;> exact .inl rfl
  | writable =>
    simp only [advance] at h
    rcases disk.commit_atomic s.db (s.db.write (req.op.writes req.partitionId)) with hdone | ⟨e, hfailed⟩
    · rw [hdone] at h
      cases h
      exact .inr ⟨rfl, rfl⟩
    · rw [hfailed] at h
      cases h
      exact .inl rfl
  | stored =>
    cases h
    exact .inl (congrArg PartitionManager.db (s.logOn_pm disk _ _))
  | returned response => cases h
  | panicked => cases h

/-- What holds of a call when it starts, and is kept by its own steps, a step keeps. -/
theorem CallStep.keeps {s s' : CallSys} {a : NodeAct} (h : CallStep s a s') {Out : WriteCall → Prop} {i : Nat}
    (hstart : ∀ req, Out ⟨req, .started⟩)
    (hown : ∀ {disk req phase server phase'}, a = .advance i disk → s.calls[i]? = some ⟨req, phase⟩ →
      Storage.advance s.server disk req phase = some (server, phase') → Out ⟨req, phase⟩ → Out ⟨req, phase'⟩)
    (hi : ∀ call ∈ s.calls[i]?, Out call) : ∀ call ∈ s'.calls[i]?, Out call := by
  intro call hcall
  cases h with
  | call req =>
    rcases getElem?_concat_eq_some hcall with ⟨-, rfl⟩ | hold
    · exact hstart req
    · exact hi call hold
  | advance hj hadv =>
    rcases getElem?_set_eq_some hcall with ⟨rfl, rfl⟩ | ⟨-, hold⟩
    · exact hown rfl hj hadv (hi _ hj)
    · exact hi call hold
  | lease _ _ _ => exact hi call hcall
  | edit _ => exact hi call hcall
  | otherWriter _ => exact hi call hcall

/-! ## The checks of a call -/

/-- The checks a handler makes on its way to the store. -/
inductive Check
  | lease
  | hosted
  | primary
  | epoch
  | status

namespace Check

/-- The field handlers have no status check. -/
def appliesTo (op : WriteOp) : Check → Bool
  | status => op.plain
  | _ => true

def Passes (s : Server) (req : WriteRequest) : Check → Prop
  | lease => s.canWrite = true
  | hosted => s.pm.hasPartition req.partitionId = true
  | primary => s.pm.isPrimary req.partitionId = true
  | epoch => s.pm.validateEpoch req.partitionId req.epoch = .ok ()
  | status => ∃ q, s.pm.partitions.get req.partitionId = some q ∧ q.status ∈ req.op.writableIn

/-- Where a handler makes the check. -/
def phase : Check → HandlerPhase
  | lease => .started
  | hosted => .leased
  | primary => .hosted
  | epoch => .primary
  | status => .present

end Check

/-- How far the handler has come; one that was refused, or has panicked, has come nowhere. -/
def HandlerPhase.progress : HandlerPhase → Nat
  | started => 0
  | leased => 1
  | hosted => 2
  | primary => 3
  | validated => 4
  | present => 5
  | writable => 6
  | stored => 7
  | returned response => if response.success then 8 else 0
  | panicked => 0

def HandlerPhase.Past (phase : HandlerPhase) (c : Check) : Prop := c.phase.progress < phase.progress

instance (phase : HandlerPhase) (c : Check) : Decidable (phase.Past c) := inferInstanceAs (Decidable (_ < _))

theorem not_past_started (c : Check) : ¬ HandlerPhase.started.Past c := Nat.not_lt_zero _

theorem past_writable (c : Check) : HandlerPhase.writable.Past c := by
  cases c <;> decide

/-- Between a check's phase and the next one there is no other check. -/
theorem Check.eq_of_past {c d : Check} {phase : HandlerPhase} (hnext : phase.progress = d.phase.progress + 1)
    (hbefore : ¬ d.phase.Past c) (hafter : phase.Past c) : c = d := by
  have hsame : c.phase.progress = d.phase.progress := by
    unfold HandlerPhase.Past at hbefore hafter
    omega
  cases c <;> cases d <;> first | rfl | cases hsame

/-- A handler gets past a check by making it. -/
theorem past_of_advance {s s' : Server} {disk : Disk} {req : WriteRequest} {phase phase' : HandlerPhase} {c : Check}
    (h : advance s disk req phase = some (s', phase')) (hop : c.appliesTo req.op = true) (hbefore : ¬ phase.Past c)
    (hafter : phase'.Past c) : phase = c.phase ∧ c.Passes s req := by
  have hrefused : ∀ e, ¬ (HandlerPhase.returned (.refused e)).Past c := fun _ => Nat.not_lt_zero _
  cases phase with
  | started =>
    simp only [advance] at h
    split_ifs at h with hcan <;> cases h
    · obtain rfl := Check.eq_of_past (d := .lease) rfl hbefore hafter
      exact ⟨rfl, hcan⟩
    · exact absurd hafter (hrefused _)
  | leased =>
    simp only [advance] at h
    split_ifs at h with hhas <;> cases h
    · obtain rfl := Check.eq_of_past (d := .hosted) rfl hbefore hafter
      exact ⟨rfl, hhas⟩
    · exact absurd hafter (hrefused _)
  | hosted =>
    simp only [advance] at h
    split_ifs at h with hprime <;> cases h
    · obtain rfl := Check.eq_of_past (d := .primary) rfl hbefore hafter
      exact ⟨rfl, hprime⟩
    · exact absurd hafter (hrefused _)
  | primary =>
    simp only [advance] at h
    split at h <;> cases h
    · exact absurd hafter (hrefused _)
    · rename_i hepoch
      obtain rfl := Check.eq_of_past (d := .epoch) rfl hbefore hafter
      exact ⟨rfl, hepoch⟩
  | validated =>
    -- The second look at `HasPartition` is none of the checks; a field write goes on to the store from here.
    have honly : c = .status := by
      cases c <;> first | rfl | exact absurd (by decide) hbefore
    subst honly
    simp only [advance] at h
    split_ifs at h with hplain hhas <;> cases h
    · exact absurd hafter (by decide)
    · exact absurd hafter (hrefused _)
    · exact absurd hop hplain
  | present =>
    simp only [advance] at h
    split at h
    · cases h
      exact absurd hafter (Nat.not_lt_zero _)
    · rename_i q hq
      split_ifs at h with hstatus <;> cases h
      · obtain rfl := Check.eq_of_past (d := .status) rfl hbefore hafter
        exact ⟨rfl, q, hq, hstatus⟩
      · exact absurd hafter (hrefused _)
  | writable => exact absurd (past_writable c) hbefore
  | stored => exact absurd (by cases c <;> decide) hbefore
  | returned response => cases h
  | panicked => cases h

/-- **A check that lets nobody through keeps out**: a call that is not past it stays so, while it fails whenever the call
makes it. -/
theorem stays_out {c : Check} {i : Nat} {req : WriteRequest} (hop : c.appliesTo req.op = true) {as : List NodeAct}
    {s s' : CallSys} (hrun : run nodeStep s as = some s')
    (hfails : Along nodeStep (fun t a => (∃ disk, a = .advance i disk) → t.calls[i]? = some ⟨req, c.phase⟩ →
      ¬ c.Passes t.server req) s as)
    (hi : ∀ call ∈ s.calls[i]?, call.req = req → ¬ call.phase.Past c) :
    ∀ call ∈ s'.calls[i]?, call.req = req → ¬ call.phase.Past c := by
  refine run_inv_along (P := fun t => ∀ call ∈ t.calls[i]?, call.req = req → ¬ call.phase.Past c)
    (fun t a t' ht hfail hstep => ?_) hi hfails hrun
  refine (nodeStep_cases hstep).keeps (fun _ _ => not_past_started c) ?_ ht
  rintro disk _ phase server phase' rfl hcall hadv hout rfl hpast
  obtain ⟨rfl, hpasses⟩ := past_of_advance hadv hop (hout rfl) hpast
  exact hfail ⟨disk, rfl⟩ hcall hpasses

/-- **An acknowledged write has passed every check**: for each of them there is a moment of the call at which the handler
made it and it held. The moments differ, and none of them need be the moment of the write. -/
theorem acknowledged_passed (c : Check) {as : List NodeAct} {s s' : CallSys} (hrun : run nodeStep s as = some s')
    {i : Nat} (hi : s.calls[i]? = none) {req : WriteRequest} {response : WriteResponse}
    (hcall : s'.calls[i]? = some ⟨req, .returned response⟩) (hack : response.success = true)
    (hop : c.appliesTo req.op = true) :
    ∃ bs disk cs t, as = bs ++ .advance i disk :: cs ∧ run nodeStep s bs = some t ∧
      t.calls[i]? = some ⟨req, c.phase⟩ ∧ c.Passes t.server req := by
  have hpast : (HandlerPhase.returned response).Past c := by
    show _ < HandlerPhase.progress _
    simp only [HandlerPhase.progress, hack, if_true]
    cases c <;> decide
  rcases along_or_exists (fun t a => (∃ disk, a = .advance i disk) → t.calls[i]? = some ⟨req, c.phase⟩ →
    ¬ c.Passes t.server req) hrun with hfails | ⟨bs, a, cs, t, -, rfl, hbefore, hmoment, -, -⟩
  · exact absurd hpast (stays_out hop hrun hfails (by simp [hi]) _ hcall rfl)
  · push Not at hmoment
    obtain ⟨⟨disk, rfl⟩, hat, hpasses⟩ := hmoment
    exact ⟨bs, disk, cs, t, rfl, hbefore, hat, hpasses⟩

/-- A put of key 1 to partition 7. -/
def putOne : WriteRequest := ⟨7, 0, .put [1] [2]⟩

/-- The handler's next `n` steps. -/
def steps (i n : Nat) : List NodeAct := List.replicate n (.advance i .working)

/-- The lease goes while the handler is on its way, and the write is acknowledged all the same. -/
theorem acknowledged_passed_lease_lost :
    ∃ s', run nodeStep ⟨primaryOfSeven, []⟩ (.call putOne :: steps 0 4 ++ .loseLease :: steps 0 4) = some s' ∧
      s'.server.canWrite = false ∧
      ∃ bs disk cs t, .call putOne :: steps 0 4 ++ .loseLease :: steps 0 4 = bs ++ .advance 0 disk :: cs ∧
        run nodeStep ⟨primaryOfSeven, []⟩ bs = some t ∧ t.calls[0]? = some ⟨putOne, .started⟩ ∧
        t.server.canWrite = true :=
  ⟨_, rfl, rfl, acknowledged_passed .lease rfl rfl rfl rfl rfl⟩

theorem forall_calls {calls : List WriteCall} {Out : WriteCall → Prop} :
    (∀ call ∈ calls, Out call) ↔ ∀ i : Nat, ∀ call ∈ calls[i]?, Out call := by
  refine ⟨fun h i call hi => h call (List.mem_of_getElem? hi), fun h call hmem => ?_⟩
  obtain ⟨i, hi⟩ := List.mem_iff_getElem?.1 hmem
  exact h i call hi

/-! ## The lease is lost -/

theorem CallStep.lost {s s' : CallSys} {a : NodeAct} (h : CallStep s a s') (hlost : s.server.canWrite = false) :
    s'.server.canWrite = false := by
  cases h with
  | call req => exact hlost
  | advance _ hadv => exact (advance_server hadv).1.trans hlost
  | lease _ _ hlease => exact Bool.eq_false_iff.2 fun hcan => by simp [hlease hcan] at hlost
  | edit _ => exact hlost
  | otherWriter _ => exact hlost

/-- A step of the node's other writers. -/
def NodeAct.isOtherWriter : NodeAct → Bool
  | .otherWriter _ => true
  | _ => false

/-- **A lost lease is final.** Once the keep-alive has failed, or `Stop` has released the lease, the node never gets it
back: a handler that has not checked it yet, or starts later, never passes; and if no handler had passed by then, the
write requests leave the store as it was. -/
theorem lost_lease_final {as : List NodeAct} {s s' : CallSys} (hlost : s.server.canWrite = false)
    (hrun : run nodeStep s as = some s') :
    s'.server.canWrite = false ∧
    (∀ i : Nat, (∀ call ∈ s.calls[i]?, ¬ call.phase.Past .lease) → ∀ call ∈ s'.calls[i]?, ¬ call.phase.Past .lease) ∧
    ((∀ call ∈ s.calls, ¬ call.phase.Past .lease) → (∀ a ∈ as, a.isOtherWriter = false) →
      s'.server.db = s.server.db) := by
  have hout : ∀ {t a t'} (i : Nat), t.server.canWrite = false → nodeStep t a = some t' →
      (∀ call ∈ t.calls[i]?, ¬ call.phase.Past .lease) → ∀ call ∈ t'.calls[i]?, ¬ call.phase.Past .lease := by
    intro t a t' i hlost hstep
    refine (nodeStep_cases hstep).keeps (fun _ => not_past_started .lease) fun _ _ hadv hbefore hafter => ?_
    have hcan : t.server.canWrite = true := (past_of_advance (c := .lease) hadv rfl hbefore hafter).2
    simp [hlost] at hcan
  refine ⟨run_inv (fun t a t' ht hstep => (nodeStep_cases hstep).lost ht) hlost hrun, fun i hi => ?_,
    fun hcalls hwriters => ?_⟩
  · exact (run_inv (P := fun t => t.server.canWrite = false ∧ ∀ call ∈ t.calls[i]?, ¬ call.phase.Past .lease)
      (fun t a t' ht hstep => ⟨(nodeStep_cases hstep).lost ht.1, hout i ht.1 hstep ht.2⟩) ⟨hlost, hi⟩ hrun).2
  · refine (run_inv_along (C := fun _ a => a.isOtherWriter = false)
      (P := fun t => t.server.canWrite = false ∧ (∀ call ∈ t.calls, ¬ call.phase.Past .lease) ∧
        t.server.db = s.server.db) (fun t a t' ht hwriter hstep => ?_) ⟨hlost, hcalls, rfl⟩
      (along_of_forall_mem fun a ha _ => hwriters a ha) hrun).2.2
    obtain ⟨hlost, hcalls, hdb⟩ := ht
    have hcases := nodeStep_cases hstep
    refine ⟨hcases.lost hlost, forall_calls.2 fun i => hout i hlost hstep (forall_calls.1 hcalls i), ?_⟩
    rw [← hdb]
    cases hcases with
    | call req => rfl
    | advance hi hadv =>
      rcases advance_db hadv with hsame | ⟨rfl, -⟩
      · exact hsame
      · exact absurd (past_writable .lease) (forall_calls.1 hcalls _ _ hi)
    | lease _ hpm _ => exact congrArg PartitionManager.db hpm
    | edit he => exact PartitionEdit.apply_db he
    | otherWriter writes => cases hwriter

/-- One handler had passed when the lease went. -/
def leaseGone : CallSys := ⟨{ primaryOfSeven with nodeLeaseLost := true }, [⟨putOne, .leased⟩]⟩

/-- It writes; a second one, which starts later, does not. -/
theorem lost_lease_final_second :
    ∃ s', run nodeStep leaseGone (.call putOne :: steps 0 7 ++ steps 1 1) = some s' ∧
      (∀ call ∈ s'.calls[0]?, call.phase = .returned (.accepted 0)) ∧
      ∀ call ∈ s'.calls[1]?, ¬ call.phase.Past .lease :=
  ⟨_, rfl, by decide +kernel,
    (@lost_lease_final (.call putOne :: steps 0 7 ++ steps 1 1) leaseGone _ rfl rfl).2.1 1 (by decide)⟩

/-! ## The partition is frozen -/

/-- The step does not make partition `p` writable again, and none but the plain handlers writes to it. -/
def LeavesFrozen (p : UInt32) (s : CallSys) : NodeAct → Prop
  | .advance i _ => ∀ call ∈ s.calls[i]?, call.phase = .writable → call.req.partitionId = p → call.req.op.plain = true
  | .edit (.setStatus q status) => q = p → status = .migratingOut ∨ status = .offline
  | .edit (.remove q) => q ≠ p
  | .otherWriter writes => ∀ w ∈ writes, ¬ InRange p w.key
  | _ => True

theorem WriteOp.not_writable (op : WriteOp) {status : Pb.PartitionStatus}
    (h : status = .migratingOut ∨ status = .offline) : status ∉ op.writableIn := by
  rcases h with rfl | rfl <;> cases op <;> simp [writableIn]

theorem CallStep.frozen {s s' : CallSys} {a : NodeAct} {p : UInt32} (h : CallStep s a s') (hleaves : LeavesFrozen p s a)
    (hfrozen : s.server.Frozen p) : s'.server.Frozen p := by
  obtain ⟨q, hq, hstatus⟩ := hfrozen
  cases h with
  | call req => exact ⟨q, hq, hstatus⟩
  | advance _ hadv => exact ⟨q, by rw [(advance_server hadv).2, hq], hstatus⟩
  | lease _ hpm _ => exact ⟨q, by rw [hpm, hq], hstatus⟩
  | otherWriter _ => exact ⟨q, hq, hstatus⟩
  | @edit e pm he =>
    rcases PartitionEdit.apply_hosted he hq with rfl | ⟨q', hq', hsame | rfl⟩
    · exact absurd rfl hleaves
    · exact ⟨q', hq', by rwa [hsame]⟩
    · exact ⟨q', hq', hleaves rfl⟩

theorem CallStep.get_frozen {s s' : CallSys} {a : NodeAct} {p : UInt32} (h : CallStep s a s')
    (hleaves : LeavesFrozen p s a)
    (hcalls : ∀ call ∈ s.calls, call.req.partitionId = p → call.req.op.plain = true → ¬ call.phase.Past .status)
    {k : Bytes} (hk : InRange p k) : s'.server.db.get k = s.server.db.get k := by
  cases h with
  | call req => rfl
  | @advance i disk req phase phase' server hi hadv =>
    rcases advance_db hadv with hsame | ⟨rfl, hwrite⟩
    · exact congrArg (OrdMap.get · k) hsame
    · have hne : req.partitionId ≠ p := fun hp =>
        hcalls _ (List.mem_of_getElem? hi) hp (hleaves _ hi rfl hp) (past_writable .status)
      exact (congrArg (OrdMap.get · k) hwrite).trans (((req.op.writesTo _).untouched hne s.server).2 k hk)
  | lease _ hpm _ => exact congrArg (fun pm => OrdMap.get (PartitionManager.db pm) k) hpm
  | edit he => exact congrArg (OrdMap.get · k) (PartitionEdit.apply_db he)
  | otherWriter writes =>
    have hnone : lastWrite k writes = none := lastWrite_eq_none.2 fun w hw heq => hleaves w hw (heq ▸ hk)
    show (s.server.db.write writes).get k = s.server.db.get k
    rw [get_write, hnone]
    rfl

-- A put that has seen the status before the export set it is stored after the export has read the partition.
example : (run nodeStep ⟨primaryOfSeven, []⟩
    (.call putOne :: steps 0 6 ++ .edit (.setStatus 7 .migratingOut) :: steps 0 2)).map
      (fun s => (s.calls.map WriteCall.phase, scanRange s.server.db 7)) =
    some ([.returned (.accepted 0)], [(makePartitionKey 7 [1], [2])]) := by
  decide +kernel

/-! ## The partition is removed -/

/-- The step removes a partition between the two looks of a handler. -/
def RemovesInUse (s : CallSys) : NodeAct → Prop
  | .edit (.remove q) => ∃ call ∈ s.calls, call.phase = .present ∧ call.req.partitionId = q
  | _ => False

instance (s : CallSys) : ∀ a : NodeAct, Decidable (RemovesInUse s a)
  | .edit (.remove _) => inferInstanceAs (Decidable (∃ call ∈ s.calls, _))
  | .edit (.add _ _ _) | .edit (.updateEpoch _ _) | .edit (.setStatus _ _) | .call _ | .advance _ _ | .loseLease
  | .releaseAllLeases | .setReplicators _ | .otherWriter _ => isFalse id

/-- The partition of a call that has found it is still there, and no call has panicked. -/
def CallsSafe (s : CallSys) : Prop :=
  ∀ call ∈ s.calls, call.phase ≠ .panicked ∧
    (call.phase = .present → s.server.pm.hasPartition call.req.partitionId = true)

theorem CallStep.hasPartition {s s' : CallSys} {a : NodeAct} (h : CallStep s a s') {p : UInt32}
    (hremove : a ≠ .edit (.remove p)) (hp : s.server.pm.hasPartition p = true) :
    s'.server.pm.hasPartition p = true := by
  obtain ⟨q, hq⟩ := PartitionManager.hasPartition_eq_true.1 hp
  refine PartitionManager.hasPartition_eq_true.2 ?_
  cases h with
  | call req => exact ⟨q, hq⟩
  | advance _ hadv => exact ⟨q, by rw [(advance_server hadv).2, hq]⟩
  | lease _ hpm _ => exact ⟨q, by rw [hpm, hq]⟩
  | otherWriter _ => exact ⟨q, hq⟩
  | edit he =>
    rcases PartitionEdit.apply_hosted he hq with rfl | ⟨q', hq', -⟩
    · exact absurd rfl hremove
    · exact ⟨q', hq'⟩

/-- A handler finds its partition, and panics, by looking. -/
theorem advance_looks {s s' : Server} {disk : Disk} {req : WriteRequest} {phase phase' : HandlerPhase}
    (h : advance s disk req phase = some (s', phase')) :
    (phase' = .present → s.pm.hasPartition req.partitionId = true) ∧
    (phase' = .panicked → phase = .present ∧ s.pm.hasPartition req.partitionId = false) := by
  cases phase with
  | started | leased | hosted =>
    simp only [advance] at h
    split_ifs at h <;> cases h <;> simp
  | primary =>
    simp only [advance] at h
    split at h <;> cases h <;> simp
  | validated =>
    simp only [advance] at h
    split_ifs at h <;> cases h <;> simp [*]
  | present =>
    simp only [advance] at h
    split at h
    · rename_i hq
      cases h
      simpa using PartitionManager.hasPartition_eq_false.2 hq
    · split_ifs at h <;> cases h <;> simp
  | writable =>
    simp only [advance] at h
    split at h <;> cases h <;> simp
  | stored =>
    cases h
    simp
  | returned response => cases h
  | panicked => cases h

theorem callsSafe_step {s s' : CallSys} {a : NodeAct} (hs : CallsSafe s) (hremoves : ¬ RemovesInUse s a)
    (hstep : nodeStep s a = some s') : CallsSafe s' := by
  have hcases := nodeStep_cases hstep
  have hstill : ∀ call ∈ s.calls, call.phase ≠ .panicked ∧
      (call.phase = .present → s'.server.pm.hasPartition call.req.partitionId = true) := by
    intro call hcall
    refine ⟨(hs call hcall).1, fun hpresent => hcases.hasPartition ?_ ((hs call hcall).2 hpresent)⟩
    rintro rfl
    exact hremoves ⟨call, hcall, hpresent, rfl⟩
  refine forall_calls.2 fun i => hcases.keeps (fun _ => ⟨nofun, nofun⟩) ?_ (forall_calls.1 hstill i)
  rintro disk req phase server phase' rfl hi hadv -
  obtain ⟨hfinds, hpanics⟩ := advance_looks hadv
  refine ⟨fun hphase => ?_, fun hphase => hcases.hasPartition nofun (hfinds hphase)⟩
  obtain ⟨hpresent, habsent⟩ := hpanics hphase
  have hthere := (hs _ (List.mem_of_getElem? hi)).2 hpresent
  simp [habsent] at hthere

/-- **A handler panics only if its partition is removed between its two looks at it.** -/
theorem panics_only_if_removed {as : List NodeAct} {s s' : CallSys} (hs : s.calls = [])
    (hc : Along nodeStep (fun t a => ¬ RemovesInUse t a) s as) (hrun : run nodeStep s as = some s') :
    ∀ call ∈ s'.calls, call.phase ≠ .panicked := by
  have hsafe : CallsSafe s' :=
    run_inv_along (fun _ _ _ => callsSafe_step) (by simp [CallsSafe, hs]) hc hrun
  exact fun call hcall => (hsafe call hcall).1

/-- A partition removed while a handler is before its first look. -/
theorem panics_only_if_removed_early :
    ∃ s', run nodeStep ⟨primaryOfSeven, []⟩ (.call putOne :: steps 0 1 ++ .edit (.remove 7) :: steps 0 1) = some s' ∧
      ∀ call ∈ s'.calls, call.phase ≠ .panicked :=
  ⟨_, rfl, @panics_only_if_removed (.call putOne :: steps 0 1 ++ .edit (.remove 7) :: steps 0 1) ⟨primaryOfSeven, []⟩ _
    rfl (by decide +kernel) rfl⟩

-- Between the two looks it does.
example : (run nodeStep ⟨primaryOfSeven, []⟩ (.call putOne :: steps 0 5 ++ .edit (.remove 7) :: steps 0 1)).map
    (fun s => s.calls.map WriteCall.phase) = some [.panicked] := by
  decide +kernel

end RocksKV.Storage
