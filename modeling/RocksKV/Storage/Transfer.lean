import RocksKV.Storage.FieldStorage
/-!
# Exporting and ingesting a partition (`pkg/storage/server.go:807-1056`)

| here | there |
| --- | --- |
| `SSTFormat`     | **RocksDB boundary**: what `SSTFileWriter` writes, and what `IngestExternalFile` accepts of a file |
| `compareBytes`  | `compareBytes` (`:1036-1056`) |
| `scanRange`     | the iteration of `ExportSST` (`:836-856`) |
| `exportSST`     | `ExportSST` (`:807-930`), with the point at which it fails, if any |
| `ingestSST`     | `IngestSST` (`:933-1023`) |

An empty partition is sent as one last chunk with its id; any other as the bytes of its file in pieces, and
then a last chunk without data. The receiver adds the partition to its manager in the first case and in the
second lays the file's keys over those it has: it never removes any.
-/

namespace RocksKV.Storage

open Lib

/-- A file format for sorted keys. -/
structure SSTFormat where
  write      : List (Bytes × Bytes) → Bytes
  /-- `none` for bytes that are not a file. -/
  read       : Bytes → Option (List (Bytes × Bytes))
  read_write : ∀ kvs, read (write kvs) = some kvs
  write_ne   : ∀ kvs, write kvs ≠ []

/-! ### A format of this kind

Every byte of a string is written after a one, and a zero ends the string; the file starts with a two. -/

def escape (s : Bytes) : Bytes := (s.flatMap fun b => [1, b]) ++ [0]

def unescape : Bytes → Option (List Bytes)
  | [] => some []
  | 0 :: rest => (unescape rest).map ([] :: ·)
  | 1 :: b :: rest =>
    match unescape rest with
    | some (s :: strings) => some ((b :: s) :: strings)
    | _ => none
  | _ => none

def pairUp : List Bytes → Option (List (Bytes × Bytes))
  | [] => some []
  | [_] => none
  | k :: v :: rest => (pairUp rest).map ((k, v) :: ·)

theorem unescape_escape (rest : Bytes) : ∀ s : Bytes, unescape (escape s ++ rest) = (unescape rest).map (s :: ·)
  | [] => rfl
  | b :: s => by
    have ih := unescape_escape rest s
    rw [show escape (b :: s) ++ rest = 1 :: b :: (escape s ++ rest) by simp [escape]]
    simp only [unescape, ih]
    cases unescape rest <;> rfl

theorem unescape_pairs : ∀ kvs : List (Bytes × Bytes),
    unescape (kvs.flatMap fun e => escape e.1 ++ escape e.2) = some (kvs.flatMap fun e => [e.1, e.2])
  | [] => rfl
  | e :: kvs => by
    rw [List.flatMap_cons, List.append_assoc, unescape_escape, unescape_escape, unescape_pairs kvs]
    rfl

theorem pairUp_pairs : ∀ kvs : List (Bytes × Bytes), pairUp (kvs.flatMap fun e => [e.1, e.2]) = some kvs
  | [] => rfl
  | e :: kvs => by
    rw [List.flatMap_cons]
    simp only [List.cons_append, List.nil_append, pairUp, pairUp_pairs kvs, Option.map_some]

def SSTFormat.escaped : SSTFormat where
  write kvs := 2 :: kvs.flatMap fun e => escape e.1 ++ escape e.2
  read
    | 2 :: data => (unescape data).bind pairUp
    | _ => none
  read_write kvs := by simp only [unescape_pairs, Option.bind_some, pairUp_pairs]
  write_ne _ := List.cons_ne_nil _ _

/-! ## Export -/

def compareBytes : Bytes → Bytes → Int
  | [], [] => 0
  | [], _ :: _ => -1
  | _ :: _, [] => 1
  | x :: a, y :: b => if x < y then -1 else if y < x then 1 else compareBytes a b

theorem compareBytes_neg : ∀ {a b : Bytes}, compareBytes a b < 0 ↔ a < b
  | [], [] => by simp [compareBytes]
  | [], y :: b => by simp [compareBytes]
  | x :: a, [] => by simp [compareBytes]
  | x :: a, y :: b => by
    rw [compareBytes, List.cons_lt_cons_iff]
    split_ifs with h1 h2
    · simp [h1]
    · have hne : x ≠ y := (ne_of_lt h2).symm
      simp [h1, hne]
    · have heq : x = y := le_antisymm (not_lt.1 h2) (not_lt.1 h1)
      rw [compareBytes_neg]
      simp [heq]

/-- The partition's keys and values, from the start of its range until the first key past its end. -/
def scanRange (db : RocksDB) (p : UInt32) : List (Bytes × Bytes) :=
  (db.seek (getPartitionRange p).1).takeWhile fun e => decide (compareBytes e.1 (getPartitionRange p).2 < 0)

/-- The reads of `file.Read` into the buffer of 64 KiB. -/
def readPieces : Nat → Bytes → List Bytes
  | 0, _ => []
  | fuel + 1, data => if data = [] then [] else data.take 65536 :: readPieces fuel (data.drop 65536)

def exportChunks (fmt : SSTFormat) (p : UInt32) (kvs : List (Bytes × Bytes)) : List Pb.SSTChunk :=
  if kvs = [] then [{ data := [], isLast := true, partitionId := p }]
  else
    let pieces := readPieces (fmt.write kvs).length (fmt.write kvs)
    (pieces.map fun d => { data := d, isLast := false, partitionId := 0 }) ++
      [{ data := [], isLast := true, partitionId := 0 }]

/-- Where an export fails. -/
inductive ExportFault
  /-- Opening or filling the file, or iterating. -/
  | prepare
  /-- Finishing the file or opening it again. -/
  | finish
  /-- Reading or sending the chunk with this number. -/
  | chunk (i : Nat)
  deriving DecidableEq

/-- What the receiver of a stream sees; the end of the list is the end of the stream. -/
inductive Recv
  | chunk (c : Pb.SSTChunk)
  | failed
  deriving DecidableEq

def exportStream (fmt : SSTFormat) (fault : Option ExportFault) (p : UInt32) (kvs : List (Bytes × Bytes)) :
    List Recv :=
  let chunks := exportChunks fmt p kvs
  match fault with
  | none => chunks.map .chunk
  | some .prepare => [.failed]
  | some .finish => if kvs = [] then chunks.map .chunk else [.failed]
  | some (.chunk i) => if i < chunks.length then (chunks.take i).map .chunk ++ [.failed] else chunks.map .chunk

def Server.exportSST (s : Server) (fmt : SSTFormat) (fault : Option ExportFault) (p : UInt32) : Server × List Recv :=
  if !s.pm.hasPartition p then (s, [.failed])
  else match s.pm.setPartitionStatus p .migratingOut with
    | .error _ => (s, [.failed])
    | .ok pm => ({ s with pm := pm }, exportStream fmt fault p (scanRange s.db p))

/-- On a partition of the node only its status changes, and it does so before anything can fail. -/
theorem exportSST_of_hosted {s : Server} {p : UInt32} {q : Partition} (hq : s.pm.partitions.get p = some q)
    (fmt : SSTFormat) (fault : Option ExportFault) :
    s.exportSST fmt fault p =
      ({ s with pm := { s.pm with partitions := s.pm.partitions.insert p { q with status := .migratingOut } } },
        exportStream fmt fault p (scanRange s.db p)) := by
  have hhas : s.pm.hasPartition p = true := PartitionManager.hasPartition_eq_true.2 ⟨q, hq⟩
  rw [Server.exportSST, PartitionManager.setPartitionStatus, PartitionManager.modify_of_hosted hq, hhas]
  rfl

/-! ### The stream -/

/-- The stream delivers a last chunk before it ends or fails. -/
def reachesLast : List Recv → Bool
  | [] => false
  | .failed :: _ => false
  | .chunk c :: rest => c.isLast || reachesLast rest

/-- The chunks up to the last one, the end of the stream or its failure. -/
def received : List Recv → List Pb.SSTChunk
  | [] => []
  | .failed :: _ => []
  | .chunk c :: rest => if c.isLast then [c] else c :: received rest

theorem received_append : ∀ {init : List Pb.SSTChunk} {rest : List Recv}, (∀ c ∈ init, c.isLast = false) →
    received (init.map .chunk ++ rest) = init ++ received rest ∧
      reachesLast (init.map .chunk ++ rest) = reachesLast rest
  | [], _, _ => ⟨rfl, rfl⟩
  | c :: init, rest, h => by
    have hc := h c List.mem_cons_self
    obtain ⟨h1, h2⟩ := @received_append init rest fun d hd => h d (List.mem_cons_of_mem _ hd)
    simp [received, reachesLast, hc, h1, h2]

/-- A stream whose only last chunk is its last one. -/
def OneLast (chunks : List Pb.SSTChunk) : Prop :=
  ∃ init last, chunks = init ++ [last] ∧ last.isLast = true ∧ ∀ c ∈ init, c.isLast = false

theorem oneLast_exportChunks (fmt : SSTFormat) (p : UInt32) (kvs : List (Bytes × Bytes)) :
    OneLast (exportChunks fmt p kvs) := by
  unfold exportChunks
  split_ifs with h
  · exact ⟨[], _, rfl, rfl, by simp⟩
  · refine ⟨_, _, rfl, rfl, fun c hc => ?_⟩
    obtain ⟨d, _, rfl⟩ := List.mem_map.1 hc
    rfl

/-- An export is sent whole, or fails before its last chunk. -/
theorem exportStream_cases (fmt : SSTFormat) (fault : Option ExportFault) (p : UInt32) (kvs : List (Bytes × Bytes)) :
    exportStream fmt fault p kvs = (exportChunks fmt p kvs).map .chunk ∨
      ∃ init : List Pb.SSTChunk, (∀ c ∈ init, c.isLast = false) ∧
        exportStream fmt fault p kvs = init.map .chunk ++ [.failed] := by
  obtain ⟨init, last, hchunks, -, hinit⟩ := oneLast_exportChunks fmt p kvs
  unfold exportStream
  rcases fault with _ | _ | _ | i
  · exact .inl rfl
  · exact .inr ⟨[], by simp, rfl⟩
  · dsimp only
    split_ifs
    · exact .inl rfl
    · exact .inr ⟨[], by simp, rfl⟩
  · dsimp only
    split_ifs with hi
    · have hcut : (exportChunks fmt p kvs).take i = init.take i := by
        rw [hchunks, List.length_append, List.length_singleton] at hi
        rw [hchunks, List.take_append_of_le_length (by omega)]
      exact .inr ⟨init.take i, fun c hc => hinit c (List.mem_of_mem_take hc), by rw [hcut]⟩
    · exact .inl rfl

/-- **A last chunk means a complete export.** -/
theorem received_exportStream {fmt : SSTFormat} {fault : Option ExportFault} {p : UInt32}
    {kvs : List (Bytes × Bytes)} (h : reachesLast (exportStream fmt fault p kvs) = true) :
    received (exportStream fmt fault p kvs) = exportChunks fmt p kvs := by
  rcases exportStream_cases fmt fault p kvs with hall | ⟨init, hinit, hcut⟩
  · obtain ⟨init, last, hchunks, hlast, hinit⟩ := oneLast_exportChunks fmt p kvs
    rw [hall, hchunks, List.map_append, (received_append hinit).1]
    simp [received, hlast]
  · rw [hcut, (received_append hinit).2] at h
    cases h

/-! ## Ingest -/

/-- How the receiving loop ends. -/
inductive Received
  /-- The signal of an empty partition. -/
  | empty (partitionID : UInt32)
  /-- The bytes written to the file. -/
  | file (data : Bytes)
  deriving DecidableEq

/-- `data` is what has been written so far; `hasData` says that it is not empty. -/
def receive (partitionID : UInt32) (data : Bytes) : List Pb.SSTChunk → Received
  | [] => .file data
  | chunk :: rest =>
    let partitionID := if partitionID = 0 ∧ chunk.partitionId ≠ 0 then chunk.partitionId else partitionID
    if chunk.isLast = true ∧ chunk.data = [] ∧ data = [] then .empty partitionID
    else if chunk.isLast then .file (data ++ chunk.data)
    else receive partitionID (data ++ chunk.data) rest

/-- `AddPartition`, its error logged and ignored. -/
def Server.addEmptyPartition (s : Server) (p : UInt32) : Server :=
  if p ≠ 0 ∧ s.pm.hasPartition p = false then
    match s.pm.addPartition p false with
    | .error _ => s
    | .ok pm => { s with pm := pm }
  else s

/-- A failure on the receiving node's disk. -/
inductive IngestFault
  | create | write | ingest
  deriving DecidableEq

/-- The texts before the cause (`: %v`). -/
def IngestFault.message : IngestFault → String
  | .create => "failed to create sst file"
  | .write => "failed to write sst file"
  | .ingest => "failed to ingest sst"

def Server.ingestSST (s : Server) (fmt : SSTFormat) (fault : Option IngestFault) (chunks : List Pb.SSTChunk) :
    Server × Except String Unit :=
  match receive 0 [] chunks with
  | .empty partitionID => (s.addEmptyPartition partitionID, .ok ())
  | .file data =>
    if data = [] then (s, .ok ())
    else match fault with
      | some f => (s, .error f.message)
      | none =>
        match fmt.read data with
        | none => (s, .error (IngestFault.message .ingest))
        | some kvs => ({ s with pm := { s.pm with db := s.db.overlay kvs } }, .ok ())

/-! ## What is exported -/

theorem mem_scanRange {db : RocksDB} {p : UInt32} {k v : Bytes} :
    (k, v) ∈ scanRange db p ↔ db.get k = some v ∧ InRange p k := by
  have htake := OrdMap.takeWhile_eq_filter (p := fun k => decide (compareBytes k (getPartitionRange p).2 < 0))
    (db.sorted_seek (getPartitionRange p).1) fun a _ b _ hab ha => by
      rw [decide_eq_false_iff_not, compareBytes_neg] at ha ⊢
      exact fun hb => ha (hab.trans hb)
  rw [scanRange, htake, OrdMap.seek_eq_filter, List.filter_filter, List.mem_filter, OrdMap.mem_entries]
  refine and_congr_right fun _ => ?_
  rw [Bool.and_eq_true, decide_eq_true_iff, decide_eq_true_iff, compareBytes_neg, and_comm]
  rfl

theorem sorted_scanRange (db : RocksDB) (p : UInt32) : (scanRange db p).Pairwise fun a b => a.1 < b.1 :=
  (db.sorted_seek _).sublist (List.takeWhile_sublist _)

theorem flatten_readPieces : ∀ {fuel : Nat} {data : Bytes}, data.length ≤ fuel → (readPieces fuel data).flatten = data
  | 0, data, h => by
    obtain rfl : data = [] := by simpa using h
    rfl
  | fuel + 1, data, h => by
    rw [readPieces]
    split_ifs with hd
    · simp [hd]
    · have hpos := List.length_pos_iff.2 hd
      rw [List.flatten_cons, flatten_readPieces (by simp; omega), List.take_append_drop]

/-! ## What is received -/

/-- Data chunks are collected until the last chunk, which has none. -/
theorem receive_pieces : ∀ {pieces : List Bytes} {data : Bytes}, data ++ pieces.flatten ≠ [] →
    receive 0 data ((pieces.map fun d => { data := d, isLast := false, partitionId := 0 }) ++
      [{ data := [], isLast := true, partitionId := 0 }]) = .file (data ++ pieces.flatten)
  | [], data, h => by
    rw [List.flatten_nil, List.append_nil] at h ⊢
    simp [receive, h]
  | d :: pieces, data, h => by
    rw [List.flatten_cons, ← List.append_assoc] at h ⊢
    rw [List.map_cons, List.cons_append, receive]
    simpa using receive_pieces h

/-- All data of a stream is collected; without any, a last chunk tells of an empty partition. -/
theorem receive_received : ∀ {recvs : List Recv} {partitionID : UInt32} {data : Bytes},
    (data ++ (received recvs).flatMap (·.data) = [] ∧ ∃ p, receive partitionID data (received recvs) = .empty p) ∨
      receive partitionID data (received recvs) = .file (data ++ (received recvs).flatMap (·.data))
  | [], _, data => .inr (by simp [received, receive])
  | .failed :: _, _, data => .inr (by simp [received, receive])
  | .chunk c :: rest, partitionID, data => by
    rw [received]
    split_ifs with hlast
    · by_cases hempty : c.data = [] ∧ data = []
      · exact .inl ⟨by simp [hempty], _, by rw [receive, if_pos ⟨hlast, hempty⟩]⟩
      · right
        rw [receive, if_neg fun h => hempty h.2, if_pos hlast]
        simp
    · rw [receive, if_neg fun h => hlast h.1, if_neg hlast, List.flatMap_cons, ← List.append_assoc]
      exact receive_received

/-- **A stream is accepted** if it carried no data, or data that makes a file, whether it broke off or not. -/
theorem ingest_received {t : Server} {fmt : SSTFormat} {fault : Option IngestFault} {recvs : List Recv} :
    (t.ingestSST fmt fault (received recvs)).2 = .ok () ↔
      ((received recvs).flatMap (·.data) ≠ [] →
        fault = none ∧ fmt.read ((received recvs).flatMap (·.data)) ≠ none) := by
  rw [Server.ingestSST]
  rcases @receive_received recvs 0 [] with ⟨hnone, p, hrec⟩ | hrec
  · rw [hrec]
    rw [List.nil_append] at hnone
    simp [hnone]
  · rw [hrec, List.nil_append]
    by_cases hd : (received recvs).flatMap (·.data) = []
    · simp [hd]
    · cases fault with
      | some f => simp [hd]
      | none =>
        cases hr : fmt.read ((received recvs).flatMap (·.data)) with
        | none => simp [hd, hr]
        | some kvs => simp [hd, hr]

/-- **A complete export is ingested as it is**: an empty one adds the partition, any other is laid over the
store unless the disk fails. -/
theorem ingest_exportChunks (t : Server) (fmt : SSTFormat) (fault : Option IngestFault) (p : UInt32)
    (kvs : List (Bytes × Bytes)) :
    t.ingestSST fmt fault (exportChunks fmt p kvs) =
      if kvs = [] then (t.addEmptyPartition p, .ok ())
      else match fault with
        | some f => (t, .error f.message)
        | none => ({ t with pm := { t.pm with db := t.db.overlay kvs } }, .ok ()) := by
  unfold Server.ingestSST exportChunks
  split_ifs with h
  · have hrec : receive 0 [] [{ data := [], isLast := true, partitionId := p }] = .empty p := by
      by_cases hp : p = 0 <;> simp [receive, hp]
    rw [hrec]
  · have hflat := flatten_readPieces (le_refl (fmt.write kvs).length)
    rw [receive_pieces (by rw [List.nil_append, hflat]; exact fmt.write_ne kvs), List.nil_append, hflat]
    simp only [if_neg (fmt.write_ne kvs), fmt.read_write]

/-- The target once it has ingested the whole export. -/
def ingested (target : Server) (kvs : List (Bytes × Bytes)) (p : UInt32) : Server :=
  if kvs = [] then target.addEmptyPartition p else { target with pm := { target.pm with db := target.db.overlay kvs } }

theorem ingest_exportChunks_ok {t t' : Server} {fmt : SSTFormat} {fault : Option IngestFault} {p : UInt32}
    {kvs : List (Bytes × Bytes)} (h : t.ingestSST fmt fault (exportChunks fmt p kvs) = (t', .ok ())) :
    t' = ingested t kvs p := by
  rw [ingest_exportChunks] at h
  unfold ingested
  split_ifs at h ⊢ with hk
  · cases h
    rfl
  · cases fault with
    | some f => cases h
    | none =>
      cases h
      rfl

theorem db_addEmptyPartition (s : Server) (p : UInt32) : (s.addEmptyPartition p).db = s.db := by
  unfold Server.addEmptyPartition
  split_ifs with h
  · rw [PartitionManager.addPartition, PartitionManager.addPartitionWithEpoch_of_absent h.2]
    rfl
  · rfl

theorem scanRange_eq_nil {db : RocksDB} {p : UInt32} :
    scanRange db p = [] ↔ ∀ k, InRange p k → db.get k = none := by
  constructor
  · intro h k hk
    by_contra hne
    obtain ⟨v, hv⟩ := Option.ne_none_iff_exists'.1 hne
    have hmem := mem_scanRange.2 ⟨hv, hk⟩
    simp [h] at hmem
  · intro h
    refine List.eq_nil_iff_forall_not_mem.2 fun e he => ?_
    obtain ⟨hget, hin⟩ := mem_scanRange.1 he
    simp [h e.1 hin] at hget

theorem look_scanRange {db : RocksDB} {p : UInt32} {k : Bytes} (hk : InRange p k) :
    OrdMap.look k (scanRange db p) = db.get k := by
  refine Option.ext fun v => ?_
  rw [OrdMap.look_eq_some (sorted_scanRange db p), mem_scanRange]
  exact and_iff_left hk

theorem look_scanRange_of_not {db : RocksDB} {p : UInt32} {k : Bytes} (hk : ¬ InRange p k) :
    OrdMap.look k (scanRange db p) = none := by
  refine Option.eq_none_iff_forall_ne_some.2 fun v hv => hk ?_
  rw [OrdMap.look_eq_some (sorted_scanRange db p), mem_scanRange] at hv
  exact hv.2

theorem get_ingested (target : Server) (db : RocksDB) (p : UInt32) (k : Bytes) :
    (ingested target (scanRange db p) p).db.get k =
      (OrdMap.look k (scanRange db p)).or (target.db.get k) := by
  unfold ingested
  split_ifs with h
  · rw [db_addEmptyPartition, h]
    rfl
  · exact OrdMap.get_overlay_sorted k _ (sorted_scanRange db p)

theorem hosts_ingested (target : Server) (kvs : List (Bytes × Bytes)) (p : UInt32) :
    (ingested target kvs p).pm.hasPartition p = true ↔ target.pm.hasPartition p = true ∨ p ≠ 0 ∧ kvs = [] := by
  unfold ingested
  split_ifs with hk
  · unfold Server.addEmptyPartition
    split_ifs with h
    · rw [PartitionManager.addPartition, PartitionManager.addPartitionWithEpoch_of_absent h.2]
      exact iff_of_true (PartitionManager.hasPartition_eq_true.2 ⟨_, OrdMap.get_insert_self _ _ _⟩)
        (.inr ⟨h.1, hk⟩)
    · rw [not_and, Bool.not_eq_false] at h
      exact ⟨.inl, fun hor => hor.elim id fun h0 => h h0.1⟩
  · exact ⟨.inl, fun hor => hor.elim id fun h0 => absurd h0.2 hk⟩

end RocksKV.Storage
