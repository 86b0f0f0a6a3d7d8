import RocksKV.Metadata.RouteTable
import RocksKV.Storage.Transfer
/-!
# The migration controller's copy (`MigrationController.migratePartition`, `pkg/metadata/migration.go:414-506`)

| here | there |
| --- | --- |
| `MigrationPlanItem` | the plan item a migration works on |
| `setPartitionMigration` | `Router.SetPartitionMigration` (`router.go:457-491`) |
| `relayChunks` | the loop from the export stream to the ingest stream (`:457-484`) |
| `migratePartition` | `migratePartition` up to its call of `CompleteMigration`: an error, or that call's arguments |

**Bug**: the loop leaves on any error of `exportStream.Recv`, the end of the stream or not, and goes on to
close the ingest stream. The target answers success to a stream without data, and ingests whatever part of a
file it accepts, so an export that broke off can switch the route to a node without the data.

`switch_after_complete_copy_iff` says exactly when that does not happen: the stream got to its last chunk, or
some other step of the copy fails by itself.
-/

namespace RocksKV.Metadata

open Lib Storage

structure MigrationPlanItem where
  partitionID : UInt32
  sourceNode  : String
  targetNode  : String
  isPrimary   : Bool
  deriving DecidableEq, Repr

/-- The record `SetPartitionMigration` stores beside the route table; its times are left out. -/
structure MigrationInfo where
  partitionID   : UInt32
  target        : String
  state         : Pb.MigrationState
  isPrimaryMove : Bool
  deriving DecidableEq, Repr

def setPartitionMigration (table : RouteTable) (partitionID : UInt32) (targetNode : String)
    (state : Pb.MigrationState) : Except String MigrationInfo :=
  match table.entry partitionID with
  | none => .error s!"partition {partitionID} not found"
  | some partition =>
    .ok { partitionID := partitionID, target := targetNode, state := state
          isPrimaryMove := decide (partition.primary ≠ targetNode) }

/-- Where a copy fails, apart from the export stream and the target's disk. -/
inductive CopyFault
  /-- The migration record cannot be stored. -/
  | setState
  /-- `grpc.Dial` does not wait for the node: one that is down fails the call after it. -/
  | connectSource | connectTarget | startExport | startIngest
  /-- Sending the chunk with this number. -/
  | send (i : Nat)
  /-- The target's answer is lost. -/
  | close
  deriving DecidableEq

/-- The error of the call that fails, wrapped. -/
def CopyFault.message (cause : String) : CopyFault → String
  | .setState => s!"failed to set migration state: {cause}"
  | .connectSource => s!"failed to connect to source: {cause}"
  | .connectTarget => s!"failed to connect to target: {cause}"
  | .startExport => s!"failed to start export: {cause}"
  | .startIngest => s!"failed to start ingest: {cause}"
  | .send _ => s!"failed to send chunk: {cause}"
  | .close => s!"failed to close ingest stream: {cause}"

/-- What a copy meets: the source's stream, the target, what fails, and with which error. -/
structure CopyEnv where
  recvs       : List Recv
  target      : Server
  fault       : Option CopyFault
  cause       : String
  ingestFault : Option IngestFault

/-- The chunks sent, after `i` others, and how the loop ends. -/
def relayChunks (fault : Option CopyFault) (cause : String) :
    Nat → List Recv → List Pb.SSTChunk × Except String Unit
  | _, [] => ([], .ok ())
  | _, .failed :: _ => ([], .ok ())
  | i, .chunk c :: rest =>
    if fault = some (.send i) then ([], .error ((CopyFault.send i).message cause))
    else if c.isLast then ([c], .ok ())
    else
      let (sent, ending) := relayChunks fault cause (i + 1) rest
      (c :: sent, ending)

/-- A copy: what the target was sent and became, what its `IngestSST` answered if it was asked, and either an
error or the item whose route is switched by `CompleteMigration`. -/
structure Copy where
  sent   : List Pb.SSTChunk
  target : Server
  answer : Option (Except String Unit)
  call   : Except String MigrationPlanItem

/-- A copy that returns before anything is sent. -/
def CopyEnv.abort (env : CopyEnv) (fault : CopyFault) (cause : String) : Copy :=
  ⟨[], env.target, none, .error (fault.message cause)⟩

/-- The relay and the closing of the ingest stream; a stream that is broken off changes nothing. `IngestSST` answers with
an error or with `Success`, so "ingest failed" (`:490-492`) is never returned. -/
def CopyEnv.transfer (env : CopyEnv) (fmt : SSTFormat) (item : MigrationPlanItem) : Copy :=
  match relayChunks env.fault env.cause 0 env.recvs with
  | (sent, .error e) => ⟨sent, env.target, none, .error e⟩
  | (sent, .ok ()) =>
    let (target, answer) := env.target.ingestSST fmt env.ingestFault sent
    if env.fault = some .close then ⟨sent, target, some answer, .error (CopyFault.close.message env.cause)⟩
    else match answer with
      | .error e => ⟨sent, target, some (.error e), .error (CopyFault.close.message e)⟩
      | .ok () => ⟨sent, target, some (.ok ()), .ok item⟩

def migratePartition (fmt : SSTFormat) (table : RouteTable) (env : CopyEnv) (item : MigrationPlanItem) : Copy :=
  match setPartitionMigration table item.partitionID item.targetNode .copying with
  | .error err => env.abort .setState err
  | .ok _ =>
    match env.fault with
    | some .setState => env.abort .setState env.cause
    | some .connectSource => env.abort .connectSource env.cause
    | some .connectTarget => env.abort .connectTarget env.cause
    | some .startExport => env.abort .startExport env.cause
    | some .startIngest => env.abort .startIngest env.cause
    | _ => env.transfer fmt item

/-! ## The relay -/

/-- A send of one of the received chunks fails. -/
def SendFails (fault : Option CopyFault) (i : Nat) (recvs : List Recv) : Prop :=
  ∃ j, fault = some (.send j) ∧ i ≤ j ∧ j < i + (received recvs).length

theorem sendFails_cons {fault : Option CopyFault} {i : Nat} {c : Pb.SSTChunk} {rest : List Recv} :
    SendFails fault i (.chunk c :: rest) ↔
      fault = some (.send i) ∨ c.isLast = false ∧ SendFails fault (i + 1) rest := by
  simp only [SendFails, received]
  constructor
  · rintro ⟨j, hj, hle, hlt⟩
    rcases Nat.eq_or_lt_of_le hle with rfl | hgt
    · exact .inl hj
    · split_ifs at hlt with hlast
      · simp at hlt
        omega
      · refine .inr ⟨by simpa using hlast, j, hj, hgt, ?_⟩
        rw [List.length_cons] at hlt
        omega
  · rintro (hi | ⟨hlast, j, hj, hle, hlt⟩)
    · exact ⟨i, hi, le_refl _, by split_ifs <;> simp⟩
    · refine ⟨j, hj, by omega, ?_⟩
      simp only [hlast, Bool.false_eq_true, if_false, List.length_cons]
      omega

/-- **The relay sends what it receives**, unless a send fails. -/
theorem relayChunks_eq {fault : Option CopyFault} {cause : String} : ∀ {i : Nat} {recvs : List Recv},
    ¬ SendFails fault i recvs → relayChunks fault cause i recvs = (received recvs, .ok ())
  | i, [], _ => rfl
  | i, .failed :: _, _ => rfl
  | i, .chunk c :: rest, h => by
    rw [sendFails_cons, not_or] at h
    rw [relayChunks, if_neg h.1, received]
    split_ifs with hlast
    · rfl
    · rw [relayChunks_eq fun hrest => h.2 ⟨by simpa using hlast, hrest⟩]

theorem relayChunks_error {fault : Option CopyFault} (cause : String) : ∀ {i : Nat} {recvs : List Recv},
    SendFails fault i recvs → ∃ sent e, relayChunks fault cause i recvs = (sent, .error e)
  | i, [], ⟨j, _, hle, hlt⟩ => absurd hlt (by simp [received]; omega)
  | i, .failed :: _, ⟨j, _, hle, hlt⟩ => absurd hlt (by simp [received]; omega)
  | i, .chunk c :: rest, h => by
    rw [relayChunks]
    rcases sendFails_cons.1 h with hi | ⟨hlast, hrest⟩
    · rw [if_pos hi]
      exact ⟨_, _, rfl⟩
    · obtain ⟨sent, e, he⟩ := relayChunks_error cause hrest
      rw [he, if_neg (Bool.eq_false_iff.1 hlast)]
      split_ifs with hi
      · exact ⟨_, _, rfl⟩
      · exact ⟨_, _, rfl⟩

/-! ## When the route is switched -/

/-- A step of the copy fails by itself: the partition is unknown, a call fails, a received chunk cannot be
sent, or the target cannot store the data it was sent or does not accept it as a file. -/
inductive Fails (fmt : SSTFormat) (table : RouteTable) (env : CopyEnv) (item : MigrationPlanItem) : Prop
  | unknown (h : table.entry item.partitionID = none)
  | call (f : CopyFault) (h : env.fault = some f) (hf : ∀ i, f ≠ .send i)
  | send (h : SendFails env.fault 0 env.recvs)
  | disk (h : (received env.recvs).flatMap (·.data) ≠ []) (hd : env.ingestFault ≠ none)
  | file (h : (received env.recvs).flatMap (·.data) ≠ [])
      (hr : fmt.read ((received env.recvs).flatMap (·.data)) = none)

/-- What a copy does once every chunk is sent. -/
theorem CopyEnv.transfer_eq {env : CopyEnv} (fmt : SSTFormat) (item : MigrationPlanItem)
    (hs : ¬ SendFails env.fault 0 env.recvs) (hc : env.fault ≠ some .close) :
    ∃ target answer, env.target.ingestSST fmt env.ingestFault (received env.recvs) = (target, answer) ∧
      env.transfer fmt item = ⟨received env.recvs, target, some answer,
        match answer with
        | .error e => .error (CopyFault.close.message e)
        | .ok () => .ok item⟩ := by
  rcases hr : env.target.ingestSST fmt env.ingestFault (received env.recvs) with ⟨target, answer⟩
  refine ⟨target, answer, rfl, ?_⟩
  unfold CopyEnv.transfer
  simp only [relayChunks_eq hs, hr, if_neg hc]
  cases answer <;> rfl

/-- **A copy that gets through** to the call of `CompleteMigration` has sent all it received, and the target has
accepted that. -/
theorem CopyEnv.transfer_call {env : CopyEnv} {fmt : SSTFormat} {item i : MigrationPlanItem}
    (h : (env.transfer fmt item).call = .ok i) :
    ¬ SendFails env.fault 0 env.recvs ∧ env.fault ≠ some .close ∧
      (env.target.ingestSST fmt env.ingestFault (received env.recvs)).2 = .ok () ∧
      i = item ∧ (env.transfer fmt item).sent = received env.recvs ∧
      (env.transfer fmt item).answer = some (.ok ()) := by
  have hs : ¬ SendFails env.fault 0 env.recvs := by
    intro hs
    obtain ⟨sent, e, he⟩ := relayChunks_error env.cause hs
    simp [CopyEnv.transfer, he] at h
  have hc : env.fault ≠ some .close := by
    intro hc
    unfold CopyEnv.transfer at h
    rw [relayChunks_eq hs, hc] at h
    simp at h
  obtain ⟨target, answer, hr, heq⟩ := CopyEnv.transfer_eq fmt item hs hc
  rw [heq] at h ⊢
  cases answer with
  | error e => cases h
  | ok u => exact ⟨hs, hc, by rw [hr], (Except.ok.inj h).symm, rfl, rfl⟩

theorem migratePartition_cases (fmt : SSTFormat) (table : RouteTable) (env : CopyEnv) (item : MigrationPlanItem) :
    (Fails fmt table env item ∧ ∃ f cause, migratePartition fmt table env item = env.abort f cause) ∨
      migratePartition fmt table env item = env.transfer fmt item ∧ table.entry item.partitionID ≠ none ∧
        ∀ f, env.fault = some f → f = .close ∨ ∃ i, f = .send i := by
  unfold migratePartition setPartitionMigration
  cases ht : table.entry item.partitionID with
  | none => exact .inl ⟨.unknown ht, .setState, _, rfl⟩
  | some e =>
    cases hf : env.fault with
    | none => exact .inr ⟨rfl, by simp, by simp⟩
    | some f =>
      cases f with
      | send i => exact .inr ⟨rfl, by simp, by simp⟩
      | close => exact .inr ⟨rfl, by simp, by simp⟩
      | _ => exact .inl ⟨.call _ hf (by simp), _, _, rfl⟩

theorem migratePartition_call {fmt : SSTFormat} {table : RouteTable} {env : CopyEnv} {item i : MigrationPlanItem}
    (h : (migratePartition fmt table env item).call = .ok i) :
    i = item ∧ (migratePartition fmt table env item).sent = received env.recvs ∧
      (migratePartition fmt table env item).answer = some (.ok ()) := by
  rcases migratePartition_cases fmt table env item with ⟨-, f, cause, heq⟩ | ⟨heq, -, -⟩
  · rw [heq] at h
    cases h
  · rw [heq] at h ⊢
    obtain ⟨-, -, -, hi, hsent, hanswer⟩ := CopyEnv.transfer_call h
    exact ⟨hi, hsent, hanswer⟩

/-- The route is switched only after the last chunk has been received, every chunk up to it sent, and the
target has answered success. -/
def SwitchSafe (env : CopyEnv) (copy : Copy) : Prop :=
  ∀ i, copy.call = .ok i →
    reachesLast env.recvs = true ∧ copy.sent = received env.recvs ∧ copy.answer = some (.ok ())

/-- **A copy gets through** to the call of `CompleteMigration` exactly if none of its steps fails by itself. -/
theorem call_ok_iff {fmt : SSTFormat} {table : RouteTable} {env : CopyEnv} {item : MigrationPlanItem} :
    (migratePartition fmt table env item).call = .ok item ↔ ¬ Fails fmt table env item := by
  rcases migratePartition_cases fmt table env item with ⟨hfail, f, cause, heq⟩ | ⟨heq, hknown, hfault⟩
  · rw [heq]
    exact iff_of_false nofun (not_not.2 hfail)
  · rw [heq]
    constructor
    · intro hcall hfails
      obtain ⟨hs, hc, hok, -⟩ := CopyEnv.transfer_call hcall
      have hdata := ingest_received.1 hok
      cases hfails with
      | unknown h => exact hknown h
      | call f h hf =>
        rcases hfault f h with rfl | ⟨j, rfl⟩
        · exact hc h
        · exact hf j rfl
      | send h => exact hs h
      | disk h hd => exact hd (hdata h).1
      | file h hr => exact (hdata h).2 hr
    · intro hno
      have hs : ¬ SendFails env.fault 0 env.recvs := fun hs => hno (.send hs)
      have hc : env.fault ≠ some .close := fun hc => hno (.call _ hc (by simp))
      have hok : (env.target.ingestSST fmt env.ingestFault (received env.recvs)).2 = .ok () := by
        refine ingest_received.2 fun hd => ⟨?_, fun hr => hno (.file hd hr)⟩
        by_contra hdisk
        exact hno (.disk hd hdisk)
      obtain ⟨target, answer, hr, htransfer⟩ := CopyEnv.transfer_eq fmt item hs hc
      rw [hr] at hok
      obtain rfl : answer = .ok () := hok
      rw [htransfer]

/-- **The route is switched after a complete copy only, exactly if** the stream reaches its last chunk or some
step of the copy fails by itself. -/
theorem switch_after_complete_copy_iff (fmt : SSTFormat) (table : RouteTable) (env : CopyEnv)
    (item : MigrationPlanItem) :
    SwitchSafe env (migratePartition fmt table env item) ↔
      reachesLast env.recvs = true ∨ Fails fmt table env item := by
  constructor
  · intro hsafe
    by_cases hfails : Fails fmt table env item
    · exact .inr hfails
    · exact .inl (hsafe item (call_ok_iff.2 hfails)).1
  · intro h i hi
    obtain ⟨rfl, hsent, hanswer⟩ := migratePartition_call hi
    exact ⟨h.resolve_right (call_ok_iff.1 hi), hsent, hanswer⟩

/-- **A switch after a complete export** finds the exported keys on the target. -/
theorem ingested_of_switch {fmt : SSTFormat} {table : RouteTable} {env : CopyEnv} {item i : MigrationPlanItem}
    {fault : Option ExportFault} {kvs : List (Bytes × Bytes)}
    (hexp : env.recvs = exportStream fmt fault item.partitionID kvs) (hlast : reachesLast env.recvs = true)
    (h : (migratePartition fmt table env item).call = .ok i) :
    (migratePartition fmt table env item).target = ingested env.target kvs item.partitionID := by
  rcases migratePartition_cases fmt table env item with ⟨-, f, cause, heq⟩ | ⟨heq, -, -⟩
  · rw [heq] at h
    cases h
  · rw [heq] at h ⊢
    obtain ⟨hs, hc, hok, -⟩ := CopyEnv.transfer_call h
    obtain ⟨target, answer, hr, htr⟩ := CopyEnv.transfer_eq fmt item hs hc
    rw [hr] at hok
    obtain rfl : answer = .ok () := hok
    rw [hexp] at hlast hr
    rw [received_exportStream hlast] at hr
    rw [htr]
    exact ingest_exportChunks_ok hr

/-- A table with one partition, on `a` and `b`. -/
def tableOfSeven : RouteTable :=
  RouteTable.new.setEntry
    { id := 7, primary := "a", replica := "b", status := .normal, migrationTarget := "", migrationState := .none,
      epoch := 1 }

/-- A node that has nothing. -/
def emptyNode : Server where
  pm := { nodeID := "c", partitions := OrdMap.empty, db := OrdMap.empty }
  nodeLease := 0
  nodeLeaseLost := false
  replicators := OrdMap.empty
  logs := OrdMap.empty

/-- **Bug**: the export fails before its first chunk, and the route of partition 7 is switched to a node that
was sent nothing. -/
theorem failed_export_switches_route :
    (migratePartition .escaped tableOfSeven ⟨[.failed], emptyNode, none, "", none⟩ ⟨7, "a", "c", true⟩).call =
        .ok ⟨7, "a", "c", true⟩ ∧
      ¬ SwitchSafe ⟨[.failed], emptyNode, none, "", none⟩
        (migratePartition .escaped tableOfSeven ⟨[.failed], emptyNode, none, "", none⟩ ⟨7, "a", "c", true⟩) := by
  refine ⟨rfl, fun h => ?_⟩
  have hlast := (h ⟨7, "a", "c", true⟩ rfl).1
  cases hlast

end RocksKV.Metadata
