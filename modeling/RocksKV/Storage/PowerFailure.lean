import RocksKV.Storage.Watermark
/-!
# The replicator across power failures (`pkg/storage/command_log_replicator.go`, `command_log.go:424-442`)

| here | there |
| --- | --- |
| `PowerAct.repl`         | appends, flushes, syncs and the stages of `syncToReplica` (`Storage.Replicator`) |
| `PowerAct.powerFailure` | the process is gone, the log file keeps `keep` bytes, no fewer than its last `fsync` covers, the checkpoint file stays; then `NewCommandLogReplicator` (`command_log_replicator.go:62-91`) |
| `getReplicationLag`     | `GetReplicationLag` (`command_log_replicator.go:172-174`), a subtraction of `uint64`s |

`ReadFrom` hands out entries that are only flushed, and `saveCheckpoint` records them as replicated with no `fsync`
of the log in between. A power failure may then leave a checkpoint beyond the end of the log, and
`NewCommandLogReplicator` takes it as it is.
-/

namespace RocksKV.Storage

open Lib CommandLogReplicator

inductive PowerAct
  | repl (a : ReplAct)
  | powerFailure (keep fileTime : Nat) (replicaAddr : String)

def powerStep (r : CommandLogReplicator) : PowerAct → Option CommandLogReplicator
  | .repl a => replStep r a
  | .powerFailure keep fileTime replicaAddr =>
    (logStep r.commandLog (.crash keep fileTime)).map fun l =>
      { r with
        commandLog := l
        replicaAddr := replicaAddr
        replicatedSeq := r.checkpoint.getD 0
        replicaConn := none
        replicaClient := none
        phase := .idle }

def CommandLogReplicator.getReplicationLag (r : CommandLogReplicator) : UInt64 :=
  r.commandLog.log.currentSeq - r.replicatedSeq

/-- What the log needs (`Sane`), and at a power failure a checkpoint that the last `Sync` covers. -/
def CheckpointSynced (r : CommandLogReplicator) : PowerAct → Prop
  | .repl (.log a) => Sane r.commandLog a
  | .repl (.restart _ fileTime) => ∀ f ∈ r.commandLog.log.files, f.fileNum < fileTime
  | .powerFailure keep fileTime _ =>
    Sane r.commandLog (.crash keep fileTime) ∧ r.checkpoint.getD 0 ≤ r.commandLog.log.lastSyncSeq
  | _ => True

instance : ∀ (r : CommandLogReplicator) (a : PowerAct), Decidable (CheckpointSynced r a)
  | r, .repl (.log a) => inferInstanceAs (Decidable (Sane r.commandLog a))
  | r, .repl (.restart _ fileTime) => inferInstanceAs (Decidable (∀ f ∈ r.commandLog.log.files, f.fileNum < fileTime))
  | r, .powerFailure keep fileTime _ => inferInstanceAs (Decidable (Sane r.commandLog (.crash keep fileTime) ∧
      r.checkpoint.getD 0 ≤ r.commandLog.log.lastSyncSeq))
  | _, .repl (.connect _) | _, .repl .readLog | _, .repl .loadClient | _, .repl (.reply _ _)
  | _, .repl .dropConnection | _, .repl (.store _) | _, .repl (.updateReplicaAddr _) => inferInstanceAs (Decidable True)

/-! ## The invariant -/

/-- What a round in progress may set the watermark to. -/
def Phase.Behind (log : LogRun) (replicatedSeq : UInt64) : Phase → Prop
  | .idle | .failed => True
  | .connected => replicatedSeq < log.log.currentSeq
  | .read es | .sending es _ | .sent es => (es.getLastD (newEntry 0 0 0 [] [])).sequence ≤ log.log.currentSeq

/-- Watermark, checkpoint and the batch of the round do not pass the log. -/
structure Behind (r : CommandLogReplicator) : Prop where
  log        : LogInv r.commandLog
  watermark  : r.replicatedSeq ≤ r.commandLog.log.currentSeq
  checkpoint : r.checkpoint.getD 0 ≤ r.commandLog.log.currentSeq
  phase      : r.phase.Behind r.commandLog r.replicatedSeq

theorem behind_start (partitionID : UInt32) (replicaAddr : String) (fileTime : Nat) :
    Behind (CommandLogReplicator.start partitionID replicaAddr fileTime) where
  log        := logInv_start partitionID fileTime
  watermark  := by simp [CommandLogReplicator.start]
  checkpoint := by simp [CommandLogReplicator.start]
  phase      := trivial

section
variable {r : CommandLogReplicator}

/-- A longer log keeps everything behind it. -/
theorem Behind.grow (h : Behind r) {l : LogRun} (hl : LogInv l)
    (hgrow : r.commandLog.log.currentSeq ≤ l.log.currentSeq) : Behind { r with commandLog := l } := by
  refine ⟨hl, UInt64.le_trans h.watermark hgrow, UInt64.le_trans h.checkpoint hgrow, ?_⟩
  have hp := h.phase
  show r.phase.Behind l r.replicatedSeq
  cases hph : r.phase with
  | idle => trivial
  | failed => trivial
  | connected =>
    rw [hph] at hp
    exact UInt64.lt_of_lt_of_le hp hgrow
  | read es =>
    rw [hph] at hp
    exact UInt64.le_trans hp hgrow
  | sending es client =>
    rw [hph] at hp
    exact UInt64.le_trans hp hgrow
  | sent es =>
    rw [hph] at hp
    exact UInt64.le_trans hp hgrow

theorem Behind.logged (h : Behind r) {a : LogAct} {l : LogRun} (hs : Sane r.commandLog a)
    (hne : ∀ keep fileTime, a ≠ .crash keep fileTime) (hst : logStep r.commandLog a = some l) :
    Behind { r with commandLog := l } := by
  have hinv := logInv_step h.log hs hst
  refine h.grow hinv ?_
  rw [UInt64.le_iff_toNat_le, currentSeq_eq h.log, currentSeq_eq hinv]
  rcases logStep_entries h.log hs hne hst with hent | ⟨e, hent, -⟩ <;> simp [hent]

/-- The part of the state that is not the log, the watermark or the round does not matter. -/
theorem Behind.of_eq {r' : CommandLogReplicator} (h : Behind r) (hlog : r'.commandLog = r.commandLog)
    (hseq : r'.replicatedSeq = r.replicatedSeq) (hcp : r'.checkpoint = r.checkpoint)
    (hph : r'.phase.Behind r.commandLog r.replicatedSeq) : Behind r' := by
  refine ⟨hlog ▸ h.log, ?_, ?_, ?_⟩
  · rw [hseq, hlog]
    exact h.watermark
  · rw [hcp, hlog]
    exact h.checkpoint
  · rw [hseq, hlog]
    exact hph

theorem Behind.closeConnection (h : Behind r) : Behind r.closeConnection := by
  unfold CommandLogReplicator.closeConnection
  split_ifs
  · exact h.of_eq rfl rfl rfl h.phase
  · exact h

/-- `Stop` writes the whole log out, so a restart finds it as it was. -/
theorem Behind.restart (h : Behind r) {addr : String} {fileTime : Nat}
    (ht : ∀ f ∈ r.commandLog.log.files, f.fileNum < fileTime) {closed : LogRun}
    (hcl : closed = { r.commandLog with log := r.commandLog.log.close }) (hph : r.phase = .idle) :
    Behind { r with
      commandLog := closed.reopen closed.log.current.data.length fileTime
      replicaAddr := addr
      replicatedSeq := r.checkpoint.getD 0
      replicaConn := none
      replicaClient := none } := by
  subst hcl
  obtain ⟨hinv, hent⟩ := reopen_close h.log ht
  have hcp : r.checkpoint.getD 0 ≤
      (LogRun.reopen { r.commandLog with log := r.commandLog.log.close } r.commandLog.log.close.current.data.length
        fileTime).log.currentSeq := by
    rw [UInt64.le_iff_toNat_le, currentSeq_eq hinv, hent, ← currentSeq_eq h.log]
    exact UInt64.le_iff_toNat_le.1 h.checkpoint
  refine ⟨hinv, hcp, hcp, ?_⟩
  rw [show _ = Phase.idle from hph]
  trivial

/-- A power failure that the checkpoint survives with its entries. -/
theorem Behind.powerFailure (h : Behind r) {keep fileTime : Nat} {addr : String} {l : LogRun}
    (hsane : Sane r.commandLog (.crash keep fileTime)) (hsync : r.checkpoint.getD 0 ≤ r.commandLog.log.lastSyncSeq)
    (hst : logStep r.commandLog (.crash keep fileTime) = some l) :
    Behind { r with
      commandLog := l
      replicaAddr := addr
      replicatedSeq := r.checkpoint.getD 0
      replicaConn := none
      replicaClient := none
      phase := .idle } := by
  have hinv := logInv_step h.log hsane hst
  obtain ⟨old, cur, hshape⟩ := h.log
  simp only [logStep] at hst
  split_ifs at hst with hc
  cases hst
  obtain ⟨k, -, hle, hseq, -, -⟩ := hshape.reopen hc.1 hc.2 hsane
  have hcp : r.checkpoint.getD 0 ≤ (r.commandLog.reopen keep fileTime).log.currentSeq := by
    rw [UInt64.le_iff_toNat_le] at hsync ⊢
    omega
  exact ⟨hinv, hcp, hcp, trivial⟩

/-- The watermark moves to the end of the batch that was read. -/
theorem Behind.store (h : Behind r) {es : List CommandEntry} (hph : r.phase = .sent es) (saved : Bool) :
    Behind { r with
      replicatedSeq := (es.getLastD (newEntry 0 0 0 [] [])).sequence
      checkpoint := if saved then some (es.getLastD (newEntry 0 0 0 [] [])).sequence else r.checkpoint
      phase := .idle } := by
  have hp := h.phase
  rw [hph] at hp
  refine ⟨h.log, hp, ?_, trivial⟩
  cases saved with
  | true => exact hp
  | false => exact h.checkpoint

end

/-- **Step**: with a synced checkpoint at every power failure nothing passes the log. -/
theorem behind_step (r : CommandLogReplicator) (a : PowerAct) (r' : CommandLogReplicator) (h : Behind r)
    (hsync : CheckpointSynced r a) (hst : powerStep r a = some r') : Behind r' := by
  have hp := h.phase
  rcases a with a | ⟨keep, fileTime, addr⟩
  swap
  · obtain ⟨l, hl, rfl⟩ := Option.map_eq_some_iff.1 hst
    exact h.powerFailure hsync.1 hsync.2 hl
  simp only [powerStep] at hst
  cases replStep_cases hst with
  | log hne hl => exact h.logged hsync hne hl
  | stay => exact h
  | connected dialled hbehind hconn => exact h.of_eq rfl rfl rfl hbehind
  | dialled hbehind => exact h.of_eq rfl rfl rfl hbehind
  | readNothing => exact h.of_eq rfl rfl rfl trivial
  | @read entry entries hph hread =>
    rw [hph] at hp
    obtain ⟨front, last, heq, hlast, -, -⟩ := nextBatch_readFrom h.log hp hread
    refine h.of_eq rfl rfl rfl ?_
    show ((entry :: entries).getLastD _).sequence ≤ _
    rw [heq, List.getLastD_concat, UInt64.le_iff_toNat_le, currentSeq_eq h.log]
    exact sequence_le h.log hlast
  | noClient hph hclient =>
    rw [hph] at hp
    exact h.of_eq rfl rfl rfl hp
  | client hph hclient =>
    rw [hph] at hp
    exact h.of_eq rfl rfl rfl hp
  | @reply n success es client hph hn =>
    rw [hph] at hp
    refine h.of_eq rfl rfl rfl ?_
    cases success with
    | none => trivial
    | some b => exact hp
  | dropConnection => exact h.closeConnection.of_eq rfl rfl rfl trivial
  | store saved hph => exact h.store hph saved
  | sameAddr => exact h
  | @newAddr addr hne =>
    have haddr : Behind { r with replicaAddr := addr } := h.of_eq rfl rfl rfl h.phase
    exact haddr.closeConnection
  | restart hph hclosed => exact h.restart hsync hclosed hph

/-- **The watermark never passes the log** in a run whose power failures find a synced checkpoint: the lag is the
number of entries after the watermark, and a new entry gets a number above it, so that the next round does not
find nothing to replicate. -/
theorem watermark_behind_log {partitionID : UInt32} {replicaAddr : String} {fileTime : Nat} {as : List PowerAct}
    {r : CommandLogReplicator}
    (hsync : Along powerStep CheckpointSynced (CommandLogReplicator.start partitionID replicaAddr fileTime) as)
    (hrun : run powerStep (CommandLogReplicator.start partitionID replicaAddr fileTime) as = some r) :
    r.replicatedSeq ≤ r.commandLog.log.currentSeq ∧
    r.getReplicationLag.toNat + r.replicatedSeq.toNat = r.commandLog.log.currentSeq.toNat ∧
    ∀ timestamp now cmdType key value l, Sane r.commandLog (.append timestamp now cmdType key value) →
      logStep r.commandLog (.append timestamp now cmdType key value) = some l →
      ∃ e, l.entries = r.commandLog.entries ++ [e] ∧ r.replicatedSeq < e.sequence ∧
        r.replicatedSeq < l.log.currentSeq := by
  have h : Behind r := run_inv_along behind_step (behind_start partitionID replicaAddr fileTime) hsync hrun
  have hle := UInt64.le_iff_toNat_le.1 h.watermark
  refine ⟨h.watermark, ?_, ?_⟩
  · rw [getReplicationLag, UInt64.toNat_sub_of_le _ _ h.watermark]
    omega
  · intro timestamp now cmdType key value l hsane hst
    have hinv := logInv_step h.log hsane hst
    rw [currentSeq_eq h.log] at hle
    rcases logStep_entries h.log hsane (by simp) hst with hent | ⟨e, hent, hnum⟩
    · -- an append always adds its entry
      simp only [logStep] at hst
      split at hst <;> cases hst
      simp at hent
    · refine ⟨e, hent, ?_, ?_⟩
      · rw [UInt64.lt_iff_toNat_lt]
        omega
      · rw [UInt64.lt_iff_toNat_lt, currentSeq_eq hinv, hent, List.length_append, List.length_singleton]
        omega

/-- One entry, flushed and with or without a `Sync`, goes through a round; then the power fails and only what is
synced stays. -/
def failureAfterRound (synced : Bool) (keep : Nat) : List PowerAct :=
  [.repl (.log (.append 0 2 1 [1] [2])), .repl (.log (if synced then .sync else .flush 100)), .repl (.connect true),
    .repl .readLog, .repl .loadClient, .repl (.reply 1 (some true)), .repl (.store true), .powerFailure keep 3 "B"]

theorem watermark_behind_log_synced :
    ∃ r : CommandLogReplicator, run powerStep (.start 7 "B" 1) (failureAfterRound true 31) = some r ∧
      r.replicatedSeq ≤ r.commandLog.log.currentSeq := by
  have hrun : ∃ r : CommandLogReplicator, run powerStep (.start 7 "B" 1) (failureAfterRound true 31) = some r ∧ True :=
    exists_run (by decide +kernel)
  obtain ⟨r, hr, -⟩ := hrun
  exact ⟨r, hr, (watermark_behind_log (by decide +kernel) hr).1⟩

/-- **Bug**: the entry was flushed, sent and checkpointed, but not synced. After the power failure the log is empty
and the watermark is 1: the lag wraps around, and the next entry gets the number 1, which counts as replicated. -/
theorem checkpoint_passes_log :
    ∃ r : CommandLogReplicator, run powerStep (.start 7 "B" 1) (failureAfterRound false 0) = some r ∧
      r.replicatedSeq = 1 ∧ r.commandLog.log.currentSeq = 0 ∧ r.getReplicationLag.toNat = 2 ^ 64 - 1 :=
  exists_run (by decide +kernel)

end RocksKV.Storage
