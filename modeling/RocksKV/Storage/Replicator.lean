import RocksKV.Storage.LogRead
import RocksKV.Storage.Server
/-!
# The command log replicator (`pkg/storage/command_log_replicator.go`)

| here | there |
| --- | --- |
| `CommandLogReplicator`       | `type CommandLogReplicator` (`:37-59`); `applied` records what every replica has applied |
| `pbEntry`                    | the conversion in `sendBatch` (`:299-324`) |
| `ReplAct.connect`            | the start of `syncToReplica` (`:235-250`) with `connectToReplica` (`:190-211`) |
| `ReplAct.readLog`            | `ReadFrom` and its empty result (`:253-265`) |
| `ReplAct.loadClient`         | `client := clr.replicaClient` and the `nil` case (`:291-297`) |
| `ReplAct.reply`              | the RPC of `sendBatch` (`:329-345`), with what the replica did of it |
| `ReplAct.dropConnection`     | the error branch of `syncToReplica` (`:268-281`) |
| `ReplAct.store`              | `replicatedSeq` and `saveCheckpoint` (`:284-286`) |
| `ReplAct.updateReplicaAddr`  | `UpdateReplicaAddr` (`:349-370`) |
| `ReplAct.restart`            | `Stop` (`:113-132`), then `NewCommandLogReplicator` (`:62-91`) on the same directory |

One goroutine runs `syncToReplica`, but `connMu` is released between the stages of a round, so an
`UpdateReplicaAddr` may fall between any two of them. `Stop` waits for the round. `Start` runs no rounds for
a replicator made without an address; the runs below do not exclude them.

**Bug**: `sendBatch` returns no error when the replica answers `Success: false` or when the client is gone, so
`syncToReplica` moves `replicatedSeq` past entries the replica does not have; and neither
`UpdateReplicaAddr` nor a restart with another address resets it.
-/

namespace RocksKV.Storage

open Lib

/-! ## The batch on the wire -/

/-- An unknown type is sent with the zero value, `REP_OP_PUT`. -/
def pbEntry (entry : CommandEntry) : Pb.ReplicationEntry :=
  { offset := (Int64.ofUInt64 entry.sequence).toInt
    key := entry.key
    value := entry.value
    opType := match CmdType.ofByte entry.cmdType with
      | some .delete => .delete
      | some .fieldBatch => .fieldBatch
      | _ => .put }

/-- The replica after it has applied `entries`, none of which failed. -/
def Server.replicateAll (s : Server) (p : UInt32) (entries : List Pb.ReplicationEntry) : Except String Server :=
  entries.foldlM (fun s entry => s.replicateEntry p entry) s

theorem replicateFrom_applies {p : UInt32} : ∀ {entries : List Pb.ReplicationEntry} {s : Server} {lastApplied : Int},
    ∃ k ≤ entries.length, s.replicateAll p (entries.take k) = .ok (s.replicateFrom p lastApplied entries).1 ∧
      ((s.replicateFrom p lastApplied entries).2.success = true → k = entries.length)
  | [], s, lastApplied => ⟨0, le_rfl, rfl, fun _ => rfl⟩
  | entry :: rest, s, lastApplied => by
    cases h : s.replicateEntry p entry with
    | error e =>
      refine ⟨0, Nat.zero_le _, ?_, ?_⟩ <;> simp only [Server.replicateFrom, h]
      · rfl
      · simp
    | ok s' =>
      obtain ⟨k, hk, hall, hsucc⟩ := @replicateFrom_applies p rest s' entry.offset
      refine ⟨k + 1, by simpa using hk, ?_, fun hs => ?_⟩
      · simp only [Server.replicateFrom, h, ← hall, List.take_succ_cons]
        rw [Server.replicateAll, List.foldlM_cons, h]
        rfl
      · simp only [Server.replicateFrom, h] at hs
        rw [hsucc hs, List.length_cons]

/-- A batch none of whose entries fails is answered with the offset of its last one. -/
theorem replicateFrom_of_replicateAll {p : UInt32} : ∀ {entries : List Pb.ReplicationEntry} {s s' : Server}
    {lastApplied : Int}, s.replicateAll p entries = .ok s' → s.replicateFrom p lastApplied entries =
      (s', { success := true, lastAppliedOffset := (entries.map (·.offset)).getLastD lastApplied, errorMessage := "" })
  | [], s, s', lastApplied, h => by
    cases h
    rfl
  | entry :: rest, s, s', lastApplied, h => by
    rw [Server.replicateAll, List.foldlM_cons] at h
    cases he : s.replicateEntry p entry with
    | error e =>
      rw [he] at h
      cases h
    | ok t =>
      rw [he] at h
      rw [Server.replicateFrom, he]
      simp only [replicateFrom_of_replicateAll h, List.map_cons, List.getLastD_cons]

/-- **`Replicate` applies a prefix of the batch**, and answers `Success` only for all of it. -/
theorem replicate_applies (s : Server) (p : UInt32) (entries : List Pb.ReplicationEntry) :
    ∃ k ≤ entries.length, s.replicateAll p (entries.take k) = .ok (s.replicate p entries).1 ∧
      ((s.replicate p entries).2.success = true → k = entries.length) := by
  unfold Server.replicate
  split_ifs with h
  · exact ⟨0, Nat.zero_le _, rfl, fun hs => by simp at hs⟩
  · exact replicateFrom_applies

/-! ## The replicator -/

/-- How far the round in progress is. -/
inductive Phase
  | idle
  | connected
  | read (entries : List CommandEntry)
  | sending (entries : List CommandEntry) (client : String)
  | failed
  | sent (entries : List CommandEntry)
  deriving DecidableEq

structure CommandLogReplicator where
  commandLog    : LogRun
  replicaAddr   : String
  replicatedSeq : UInt64
  /-- The checkpoint file. -/
  checkpoint    : Option UInt64
  /-- The address `replicaConn` was dialled with. -/
  replicaConn   : Option String
  replicaClient : Option String
  phase         : Phase
  /-- What the replica at each address has successfully applied. -/
  applied       : OrdMap String (List CommandEntry)

namespace CommandLogReplicator

def clBatchSize : Nat := 500

def start (partitionID : UInt32) (replicaAddr : String) (fileTime : Nat) : CommandLogReplicator :=
  { commandLog := LogRun.start partitionID fileTime
    replicaAddr := replicaAddr
    replicatedSeq := 0
    checkpoint := none
    replicaConn := none
    replicaClient := none
    phase := .idle
    applied := OrdMap.empty }

def appliedAt (r : CommandLogReplicator) (addr : String) : List CommandEntry := (r.applied.get addr).getD []

def closeConnection (r : CommandLogReplicator) : CommandLogReplicator :=
  if r.replicaConn.isSome then { r with replicaConn := none, replicaClient := none } else r

end CommandLogReplicator

open CommandLogReplicator

inductive ReplAct
  /-- The command log is written to, flushed or synced. -/
  | log (a : LogAct)
  /-- A round starts; `dialled` is whether the dial succeeds, where there is one. -/
  | connect (dialled : Bool)
  | readLog
  | loadClient
  /-- The replica has applied the first `n` entries; `success` is its answer, `none` an error or a timeout. -/
  | reply (n : Nat) (success : Option Bool)
  | dropConnection
  /-- `saved` is whether the checkpoint file could be written. -/
  | store (saved : Bool)
  | updateReplicaAddr (addr : String)
  | restart (replicaAddr : String) (fileTime : Nat)

def replStep (r : CommandLogReplicator) : ReplAct → Option CommandLogReplicator
  | .log (.crash _ _) => none
  | .log a => (logStep r.commandLog a).map fun l => { r with commandLog := l }
  | .connect dialled =>
    if r.phase = .idle then
      if r.commandLog.log.currentSeq ≤ r.replicatedSeq then some r
      else if r.replicaConn.isSome then some { r with phase := .connected }
      else if dialled then
        some { r with replicaConn := some r.replicaAddr, replicaClient := some r.replicaAddr, phase := .connected }
      else some r
    else none
  | .readLog =>
    match r.phase with
    | .connected =>
      match r.commandLog.log.readFrom (r.replicatedSeq + 1) clBatchSize with
      | [] => some { r with phase := .idle }
      | entry :: entries => some { r with phase := .read (entry :: entries) }
    | _ => none
  | .loadClient =>
    match r.phase, r.replicaClient with
    | .read entries, none => some { r with phase := .sent entries }
    | .read entries, some client => some { r with phase := .sending entries client }
    | _, _ => none
  | .reply n success =>
    match r.phase with
    | .sending entries client =>
      if n ≤ entries.length ∧ (success = some true → n = entries.length) then
        some { r with
          applied := r.applied.insert client (r.appliedAt client ++ entries.take n)
          phase := if success.isSome then .sent entries else .failed }
      else none
    | _ => none
  | .dropConnection => if r.phase = .failed then some { r.closeConnection with phase := .idle } else none
  | .store saved =>
    match r.phase with
    | .sent entries =>
      let lastSeq := (entries.getLastD (newEntry 0 0 0 [] [])).sequence
      some { r with
        replicatedSeq := lastSeq
        checkpoint := if saved then some lastSeq else r.checkpoint
        phase := .idle }
    | _ => none
  | .updateReplicaAddr addr =>
    if r.replicaAddr = addr then some r else some { r with replicaAddr := addr }.closeConnection
  | .restart replicaAddr fileTime =>
    if r.phase = .idle then
      let closed := { r.commandLog with log := r.commandLog.log.close }
      some { r with
        commandLog := closed.reopen closed.log.current.data.length fileTime
        replicaAddr := replicaAddr
        replicatedSeq := r.checkpoint.getD 0
        replicaConn := none
        replicaClient := none }
    else none

/-- What a step can do. -/
inductive ReplStep (r : CommandLogReplicator) : ReplAct → CommandLogReplicator → Prop
  | log {a : LogAct} {l : LogRun} (hne : ∀ keep fileTime, a ≠ .crash keep fileTime)
    (h : logStep r.commandLog a = some l) : ReplStep r (.log a) { r with commandLog := l }
  /-- There is nothing to replicate, or no connection. -/
  | stay (dialled : Bool) : ReplStep r (.connect dialled) r
  | connected (dialled : Bool) (hbehind : r.replicatedSeq < r.commandLog.log.currentSeq)
    (hconn : r.replicaConn.isSome = true) : ReplStep r (.connect dialled) { r with phase := .connected }
  | dialled (hbehind : r.replicatedSeq < r.commandLog.log.currentSeq) : ReplStep r (.connect true)
      { r with replicaConn := some r.replicaAddr, replicaClient := some r.replicaAddr, phase := .connected }
  | readNothing (hph : r.phase = .connected) : ReplStep r .readLog { r with phase := .idle }
  | read {entry : CommandEntry} {entries : List CommandEntry} (hph : r.phase = .connected)
    (hread : r.commandLog.log.readFrom (r.replicatedSeq + 1) clBatchSize = entry :: entries) :
    ReplStep r .readLog { r with phase := .read (entry :: entries) }
  | noClient {es : List CommandEntry} (hph : r.phase = .read es) (hclient : r.replicaClient = none) :
    ReplStep r .loadClient { r with phase := .sent es }
  | client {es : List CommandEntry} {client : String} (hph : r.phase = .read es) (hclient : r.replicaClient = some client) :
    ReplStep r .loadClient { r with phase := .sending es client }
  | reply {n : Nat} {success : Option Bool} {es : List CommandEntry} {client : String} (hph : r.phase = .sending es client)
    (hn : n ≤ es.length ∧ (success = some true → n = es.length)) : ReplStep r (.reply n success)
      { r with
        applied := r.applied.insert client (r.appliedAt client ++ es.take n)
        phase := if success.isSome then .sent es else .failed }
  | dropConnection (hph : r.phase = .failed) : ReplStep r .dropConnection { r.closeConnection with phase := .idle }
  | store (saved : Bool) {es : List CommandEntry} (hph : r.phase = .sent es) : ReplStep r (.store saved)
      { r with
        replicatedSeq := (es.getLastD (newEntry 0 0 0 [] [])).sequence
        checkpoint := if saved then some (es.getLastD (newEntry 0 0 0 [] [])).sequence else r.checkpoint
        phase := .idle }
  | sameAddr : ReplStep r (.updateReplicaAddr r.replicaAddr) r
  | newAddr {addr : String} (hne : r.replicaAddr ≠ addr) :
    ReplStep r (.updateReplicaAddr addr) { r with replicaAddr := addr }.closeConnection
  | restart {addr : String} {fileTime : Nat} {closed : LogRun} (hph : r.phase = .idle)
    (hclosed : closed = { r.commandLog with log := r.commandLog.log.close }) : ReplStep r (.restart addr fileTime)
      { r with
        commandLog := closed.reopen closed.log.current.data.length fileTime
        replicaAddr := addr
        replicatedSeq := r.checkpoint.getD 0
        replicaConn := none
        replicaClient := none }

theorem replStep_cases {r r' : CommandLogReplicator} {a : ReplAct} (h : replStep r a = some r') : ReplStep r a r' := by
  cases a with
  | log a =>
    cases a with
    | crash keep fileTime => cases h
    | append timestamp fileTime cmdType key value =>
      obtain ⟨l, hl, rfl⟩ := Option.map_eq_some_iff.1 h
      exact .log (by simp) hl
    | flush n =>
      cases h
      exact .log (by simp) rfl
    | sync =>
      cases h
      exact .log (by simp) rfl
  | connect dialled =>
    simp only [replStep] at h
    split_ifs at h with hidle hbehind hconn hdial <;> cases h
    · exact .stay dialled
    · exact .connected dialled (UInt64.not_le.1 hbehind) hconn
    · subst hdial
      exact .dialled (UInt64.not_le.1 hbehind)
    · exact .stay dialled
  | readLog =>
    simp only [replStep] at h
    split at h
    · next hph =>
      split at h <;> cases h
      · exact .readNothing hph
      · next hread => exact .read hph hread
    · cases h
  | loadClient =>
    simp only [replStep] at h
    split at h
    · next hph hclient =>
      cases h
      exact .noClient hph hclient
    · next hph hclient =>
      cases h
      exact .client hph hclient
    · cases h
  | reply n success =>
    simp only [replStep] at h
    split at h
    · next hph =>
      split at h
      · next hn =>
        cases h
        exact .reply hph hn
      · cases h
    · cases h
  | dropConnection =>
    simp only [replStep] at h
    split_ifs at h with hph
    cases h
    exact .dropConnection hph
  | store saved =>
    simp only [replStep] at h
    split at h
    · next hph =>
      cases h
      exact .store saved hph
    · cases h
  | updateReplicaAddr addr =>
    simp only [replStep] at h
    split_ifs at h with hsame <;> cases h
    · subst hsame
      exact .sameAddr
    · exact .newAddr hsame
  | restart addr fileTime =>
    simp only [replStep] at h
    split_ifs at h with hph
    cases h
    exact .restart hph rfl

/-- The replica at `addr` has applied every entry of the log up to `seq`. -/
def AppliedUpTo (r : CommandLogReplicator) (seq : UInt64) (addr : String) : Prop :=
  ∀ e ∈ r.commandLog.entries, e.sequence ≤ seq → e ∈ r.appliedAt addr

instance (r : CommandLogReplicator) (seq : UInt64) (addr : String) : Decidable (AppliedUpTo r seq addr) :=
  inferInstanceAs (Decidable (∀ e ∈ r.commandLog.entries, e.sequence ≤ seq → e ∈ r.appliedAt addr))

/-- **What the watermark promises**, of the replica the log is sent to. -/
def WatermarkSound (r : CommandLogReplicator) : Prop := AppliedUpTo r r.replicatedSeq r.replicaAddr

instance (r : CommandLogReplicator) : Decidable (WatermarkSound r) :=
  inferInstanceAs (Decidable (AppliedUpTo r r.replicatedSeq r.replicaAddr))

/-- No batch is rejected, and the address changes only outside a round and to a replica that has everything the
watermark (after a restart: the checkpoint) covers. -/
def Reliable (r : CommandLogReplicator) : ReplAct → Prop
  | .log a => Sane r.commandLog a
  | .reply _ success => success ≠ some false
  | .updateReplicaAddr addr => addr = r.replicaAddr ∨ r.phase = .idle ∧ AppliedUpTo r r.replicatedSeq addr
  | .restart addr fileTime => (∀ f ∈ r.commandLog.log.files, f.fileNum < fileTime) ∧
      (addr = r.replicaAddr ∨ AppliedUpTo r (r.checkpoint.getD 0) addr)
  | _ => True

instance : ∀ (r : CommandLogReplicator) (a : ReplAct), Decidable (Reliable r a)
  | r, .log a => inferInstanceAs (Decidable (Sane r.commandLog a))
  | _, .reply _ success => inferInstanceAs (Decidable (success ≠ some false))
  | r, .updateReplicaAddr addr => inferInstanceAs (Decidable (addr = r.replicaAddr ∨
      r.phase = .idle ∧ AppliedUpTo r r.replicatedSeq addr))
  | r, .restart addr fileTime => inferInstanceAs (Decidable ((∀ f ∈ r.commandLog.log.files, f.fileNum < fileTime) ∧
      (addr = r.replicaAddr ∨ AppliedUpTo r (r.checkpoint.getD 0) addr)))
  | _, .connect _ => inferInstanceAs (Decidable True)
  | _, .readLog => inferInstanceAs (Decidable True)
  | _, .loadClient => inferInstanceAs (Decidable True)
  | _, .dropConnection => inferInstanceAs (Decidable True)
  | _, .store _ => inferInstanceAs (Decidable True)

/-! ## What the log hands out -/

/-- Every entry after `seq` up to the last of `es` is in `es`. -/
def NextBatch (log : LogRun) (seq : UInt64) (es : List CommandEntry) : Prop :=
  ∃ front last, es = front ++ [last] ∧ last ∈ log.entries ∧ seq < last.sequence ∧
    ∀ e ∈ log.entries, seq < e.sequence → e.sequence ≤ last.sequence → e ∈ es

/-- **`ReadFrom` leaves no gap** after the watermark. -/
theorem nextBatch_readFrom {log : LogRun} (h : LogInv log) {seq : UInt64} (hseq : seq < log.log.currentSeq)
    {limit : Nat} {e : CommandEntry} {es : List CommandEntry} (hread : log.log.readFrom (seq + 1) limit = e :: es) :
    NextBatch log seq (e :: es) := by
  obtain ⟨b, hb, hbatch⟩ := readFrom_succ h hseq limit
  rw [hread] at hbatch
  obtain ⟨front, last, hlast⟩ : ∃ front last, e :: es = front ++ [last] :=
    ⟨_, _, (List.dropLast_append_getLast (List.cons_ne_nil e es)).symm⟩
  have hend : last.sequence.toNat = b := by
    have hlastD := last_stretch h.numbered hb hbatch.symm e
    rwa [hlast, List.getLastD_concat] at hlastD
  have hmem : last ∈ (log.entries.take b).drop seq.toNat := by
    rw [← hbatch, hlast]
    exact List.mem_append_right _ List.mem_cons_self
  have hin : last ∈ log.entries := List.mem_of_mem_take (List.mem_of_mem_drop hmem)
  refine ⟨front, last, hlast, hin, UInt64.lt_iff_toNat_lt.2 ((h.numbered.mem_stretch hin).1 hmem).1, ?_⟩
  intro x hx hlt hle
  rw [hbatch, h.numbered.mem_stretch hx, ← hend]
  exact ⟨UInt64.lt_iff_toNat_lt.1 hlt, UInt64.le_iff_toNat_le.1 hle⟩

end RocksKV.Storage
