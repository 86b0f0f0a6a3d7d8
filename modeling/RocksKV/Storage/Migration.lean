import RocksKV.Storage.Transfer
/-!
# Moving a partition between nodes (`pkg/storage/migration.go:118-194`)

| here | there |
| --- | --- |
| `MigrateFault` | the errors `MigratePartition` can return before the copy is over |
| `relay`        | its loop: the chunks sent to the target |
| `migratePartition` | `MigratePartition`: `ExportSST` on the source relayed to `IngestSST` on the target |

**Bug**: nothing removes what the target already has of the partition. `IngestExternalFile` lays the exported
keys over the present ones, so a key that was deleted after the target last held the partition comes back.
Nor does the target host the partition afterwards, unless it did before or the export was empty (and the
partition is not number 0, which the chunk's field cannot tell from none).

`Clean` is the exact condition under which the target reads as the source does (`reads_follow_iff_clean`).
-/

namespace RocksKV.Storage

open Lib

inductive MigrateFault
  | connectSource | connectTarget | startExport | startIngest
  /-- Sending the chunk with this number. -/
  | send (i : Nat)
  /-- The target's answer is lost. -/
  | close
  deriving DecidableEq

/-- The texts before the cause (`: %w`). -/
def MigrateFault.message : MigrateFault → String
  | .connectSource => "failed to connect to source"
  | .connectTarget => "failed to connect to target"
  | .startExport => "failed to start export"
  | .startIngest => "failed to start ingest"
  | .send _ => "ingest stream error"
  | .close => "failed to close ingest stream"

/-- The chunks sent, `i` of them so far. -/
def relay (fault : Option MigrateFault) : Nat → List Recv → Except String (List Pb.SSTChunk)
  | _, [] => .ok []
  | _, .failed :: _ => .error "export stream error"
  | i, .chunk c :: rest =>
    if fault = some (.send i) then .error (MigrateFault.send i).message
    else if c.isLast then .ok [c]
    else (relay fault (i + 1) rest).map (c :: ·)

/-- The two nodes after a migration, and what it returned. -/
structure Migrated where
  source : Server
  target : Server
  result : Except String Unit

/-- The target's part, given what the relay sent; an ingest that is broken off changes nothing. A failed ingest
is an error of the call, so no answer says `Success = false`. -/
def finishMigration (fmt : SSTFormat) (fault : Option MigrateFault) (ingestFault : Option IngestFault)
    (source target : Server) : Except String (List Pb.SSTChunk) → Migrated
  | .error e => ⟨source, target, .error e⟩
  | .ok chunks =>
    let (target, answer) := target.ingestSST fmt ingestFault chunks
    if fault = some .close then ⟨source, target, .error (MigrateFault.message .close)⟩
    else match answer with
      | .error _ => ⟨source, target, .error (MigrateFault.message .close)⟩
      | .ok () => ⟨source, target, .ok ()⟩

/-- What can go wrong, in the relay and on the two nodes. -/
structure MigrateEnv where
  relayFault  : Option MigrateFault
  exportFault : Option ExportFault
  ingestFault : Option IngestFault

def migratePartition (fmt : SSTFormat) (env : MigrateEnv) (source target : Server) (p : UInt32) : Migrated :=
  match env.relayFault with
  | some .connectSource => ⟨source, target, .error (MigrateFault.message .connectSource)⟩
  | some .connectTarget => ⟨source, target, .error (MigrateFault.message .connectTarget)⟩
  | some .startExport => ⟨source, target, .error (MigrateFault.message .startExport)⟩
  | some .startIngest =>
    ⟨(source.exportSST fmt env.exportFault p).1, target, .error (MigrateFault.message .startIngest)⟩
  | fault =>
    let (source, recvs) := source.exportSST fmt env.exportFault p
    finishMigration fmt fault env.ingestFault source target (relay fault 0 recvs)

/-! ## The relay -/

/-- A relay that returns has sent what it received, up to a last chunk or the end of the stream. -/
theorem relay_ok {fault : Option MigrateFault} : ∀ {i : Nat} {init : List Pb.SSTChunk} {rest : List Recv}
    {sent : List Pb.SSTChunk}, (∀ c ∈ init, c.isLast = false) →
    relay fault i (init.map .chunk ++ rest) = .ok sent →
    ∃ tail, sent = init ++ tail ∧ relay fault (i + init.length) rest = .ok tail
  | i, [], rest, sent, _, h => ⟨sent, rfl, h⟩
  | i, c :: init, rest, sent, hinit, h => by
    rw [List.map_cons, List.cons_append, relay] at h
    split_ifs at h with hsend hlast
    · simp [hinit c List.mem_cons_self] at hlast
    · cases hr : relay fault (i + 1) (init.map .chunk ++ rest) with
      | error e =>
        rw [hr] at h
        cases h
      | ok sent' =>
        rw [hr] at h
        cases h
        obtain ⟨tail, rfl, ht⟩ := relay_ok (fun c hc => hinit c (List.mem_cons_of_mem _ hc)) hr
        refine ⟨tail, rfl, ?_⟩
        rw [List.length_cons, ← Nat.add_assoc, Nat.add_right_comm]
        exact ht

/-- **The relay of an export returns with the whole export or not at all.** -/
theorem relay_exportStream {fault : Option MigrateFault} {fmt : SSTFormat} {ef : Option ExportFault} {p : UInt32}
    {kvs : List (Bytes × Bytes)} {sent : List Pb.SSTChunk}
    (h : relay fault 0 (exportStream fmt ef p kvs) = .ok sent) : sent = exportChunks fmt p kvs := by
  rcases exportStream_cases fmt ef p kvs with hall | ⟨init, hinit, hcut⟩
  · obtain ⟨init, last, hchunks, hlast, hinit⟩ := oneLast_exportChunks fmt p kvs
    rw [hall, hchunks, List.map_append] at h
    obtain ⟨tail, rfl, ht⟩ := relay_ok hinit h
    rw [List.map_singleton, relay, if_pos hlast] at ht
    split_ifs at ht
    cases ht
    exact hchunks.symm
  · rw [hcut] at h
    obtain ⟨tail, _, ht⟩ := relay_ok hinit h
    cases ht

/-! ## A migration that returns -/

theorem finishMigration_ok {fmt : SSTFormat} {fault : Option MigrateFault} {inf : Option IngestFault}
    {source target : Server} {p : UInt32} {kvs : List (Bytes × Bytes)} {r : Except String (List Pb.SSTChunk)}
    (hr : ∀ sent, r = .ok sent → sent = exportChunks fmt p kvs)
    (h : (finishMigration fmt fault inf source target r).result = .ok ()) :
    finishMigration fmt fault inf source target r = ⟨source, ingested target kvs p, .ok ()⟩ := by
  cases r with
  | error e => cases h
  | ok sent =>
    obtain rfl := hr sent rfl
    rcases hi : target.ingestSST fmt inf (exportChunks fmt p kvs) with ⟨target', answer⟩
    simp only [finishMigration, hi] at h ⊢
    split_ifs at h ⊢
    cases answer with
    | error e => cases h
    | ok u => rw [show target' = _ from ingest_exportChunks_ok hi]

/-- An export starts on a partition of the node, and changes its status only. -/
theorem exportSST_cases (s : Server) (fmt : SSTFormat) (ef : Option ExportFault) (p : UInt32) :
    s.exportSST fmt ef p = (s, [.failed]) ∨
      ∃ s', s.exportSST fmt ef p = (s', exportStream fmt ef p (scanRange s.db p)) ∧ s'.db = s.db ∧
        s'.pm.hasPartition p = true := by
  by_cases h : s.pm.hasPartition p = true
  · obtain ⟨q, hq⟩ := PartitionManager.hasPartition_eq_true.1 h
    exact Or.inr ⟨_, exportSST_of_hosted hq fmt ef, rfl,
      PartitionManager.hasPartition_eq_true.2 ⟨_, OrdMap.get_insert_self _ _ _⟩⟩
  · left
    simp [Server.exportSST, h]

/-- **A migration that returns** has found the partition on the source and left its keys there, and the whole
export on the target. -/
theorem migratePartition_ok {fmt : SSTFormat} {env : MigrateEnv} {source target : Server} {p : UInt32}
    (h : (migratePartition fmt env source target p).result = .ok ()) :
    ∃ source', migratePartition fmt env source target p =
        ⟨source', ingested target (scanRange source.db p) p, .ok ()⟩ ∧
      source'.db = source.db ∧ source'.pm.hasPartition p = true := by
  have hrun : ∀ fault, (finishMigration fmt fault env.ingestFault (source.exportSST fmt env.exportFault p).1 target
        (relay fault 0 (source.exportSST fmt env.exportFault p).2)).result = .ok () →
      ∃ source', finishMigration fmt fault env.ingestFault (source.exportSST fmt env.exportFault p).1 target
          (relay fault 0 (source.exportSST fmt env.exportFault p).2) =
          ⟨source', ingested target (scanRange source.db p) p, .ok ()⟩ ∧
        source'.db = source.db ∧ source'.pm.hasPartition p = true := by
    intro fault h
    rcases exportSST_cases source fmt env.exportFault p with hexp | ⟨source', hexp, hdb, hhost⟩
    · rw [hexp] at h
      cases h
    · rw [hexp] at h ⊢
      exact ⟨source', finishMigration_ok (fun sent => relay_exportStream) h, hdb, hhost⟩
  unfold migratePartition at h ⊢
  split at h
  · cases h
  · cases h
  · cases h
  · cases h
  · exact hrun _ h

/-! ## Reads -/

/-- The three reads of a partition answer alike on two nodes. -/
structure SameReads (p : UInt32) (s t : Server) : Prop where
  get          : ∀ key, t.get p key = s.get p key
  getField     : ∀ pk name, t.getField p pk name = s.getField p pk name
  getAllFields : ∀ pk, t.getAllFields p pk = s.getAllFields p pk

/-- Two nodes with the partition read alike exactly if they hold the same keys of it. -/
theorem sameReads_iff {p : UInt32} {s t : Server} (hs : s.pm.hasPartition p = true) :
    SameReads p s t ↔ t.pm.hasPartition p = true ∧
      ∀ k, t.db.get (makePartitionKey p k) = s.db.get (makePartitionKey p k) := by
  constructor
  · intro h
    have ht : t.pm.hasPartition p = true := by
      by_contra hno
      rw [Bool.not_eq_true] at hno
      have hget := h.get []
      rw [Server.get_of_hosted hs, Server.get] at hget
      simp [hno] at hget
    refine ⟨ht, fun k => ?_⟩
    have hget := h.get k
    rw [Server.get_of_hosted hs, Server.get_of_hosted ht] at hget
    exact Except.ok.inj hget
  · rintro ⟨ht, heq⟩
    refine ⟨fun key => ?_, fun pk name => ?_, fun pk => ?_⟩
    · rw [Server.get_of_hosted hs, Server.get_of_hosted ht, heq]
    · simp only [Server.getField, hs, ht, Storage.getField, makeFieldKey_eq, heq]
    · simp only [Server.getAllFields, hs, ht, getAllFields_congr heq]

/-- What the two nodes hold before the migration: the target has the partition, or is given it with an empty
export; and where its keys are not the source's, the source has a key that is exported over it. -/
def Clean (p : UInt32) (source target : Server) : Prop :=
  (target.pm.hasPartition p = true ∨ p ≠ 0 ∧ ∀ k, InRange p k → source.db.get k = none) ∧
    ∀ k, target.db.get (makePartitionKey p k) ≠ source.db.get (makePartitionKey p k) →
      InRange p (makePartitionKey p k) ∧ source.db.get (makePartitionKey p k) ≠ none

/-- **After a migration that returns, the target reads as the source exactly if the two were clean.** -/
theorem reads_follow_iff_clean {fmt : SSTFormat} {env : MigrateEnv} {source target : Server} {p : UInt32}
    (h : (migratePartition fmt env source target p).result = .ok ()) :
    SameReads p (migratePartition fmt env source target p).source (migratePartition fmt env source target p).target ↔
      Clean p source target := by
  obtain ⟨source', hrun, hdb, hhost⟩ := migratePartition_ok h
  rw [hrun, sameReads_iff hhost, hdb, hosts_ingested, scanRange_eq_nil, Clean]
  refine and_congr_right fun _ => forall_congr' fun k => ?_
  rw [get_ingested]
  by_cases hin : InRange p (makePartitionKey p k)
  · rw [look_scanRange hin]
    cases source.db.get (makePartitionKey p k) with
    | none => simp [hin]
    | some v => simp [hin]
  · rw [look_scanRange_of_not hin]
    simp [hin]

/-- A node with partition 7 and some keys. -/
def holderOfSeven (db : RocksDB) : Server where
  pm :=
    { nodeID := "A"
      partitions := OrdMap.empty.insert 7 { id := 7, status := .normal, isPrime := false, epoch := 0 }
      db := db }
  nodeLease := 1
  nodeLeaseLost := false
  replicators := OrdMap.empty
  logs := OrdMap.empty

/-- A migration of partition 7, with the key `01` on its source, in which nothing fails. -/
def moveSeven (target : RocksDB) : Migrated :=
  migratePartition .escaped ⟨none, none, none⟩ (holderOfSeven (OrdMap.empty.insert (makePartitionKey 7 [1]) [2]))
    (holderOfSeven target) 7

theorem reads_follow_onto_empty_node : (moveSeven OrdMap.empty).result = .ok () ∧
    SameReads 7 (moveSeven OrdMap.empty).source (moveSeven OrdMap.empty).target := by
  have hok : (moveSeven OrdMap.empty).result = .ok () := by decide +kernel
  refine ⟨hok, (reads_follow_iff_clean hok).2 ⟨.inl rfl, fun k hne => ?_⟩⟩
  exact ⟨inRange_makePartitionKey (by decide) k, fun hnone => hne hnone.symm⟩

/-- **Bug**: the target still has the key `05` from an earlier time; the source does not, and the migration
brings it back. -/
theorem deleted_key_reappears :
    (moveSeven (OrdMap.empty.insert (makePartitionKey 7 [5]) [6])).result = .ok () ∧
    ¬ SameReads 7 (moveSeven (OrdMap.empty.insert (makePartitionKey 7 [5]) [6])).source
      (moveSeven (OrdMap.empty.insert (makePartitionKey 7 [5]) [6])).target := by
  refine ⟨by decide +kernel, fun h => ?_⟩
  have hget := h.get [5]
  revert hget
  decide +kernel

end RocksKV.Storage
