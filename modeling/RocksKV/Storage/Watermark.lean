import RocksKV.Storage.Replicator
/-!
# Soundness of the replication watermark

`ReplInv` follows a batch through a round: it is the next part of the log after the watermark, it goes to the
configured address, and once the replica has answered it has all of it. Each stage keeps this as long as no
answer is a rejection and the address does not change under the round (`Reliable`); `watermark_sound` is what
follows for whole runs. `rejected_batch_moves_watermark` is what happens otherwise.
-/

namespace RocksKV.Storage

open Lib CommandLogReplicator

/-- What the stage of the round guarantees. -/
def PhaseOk (r : CommandLogReplicator) : Phase → Prop
  | .idle => True
  | .connected => r.replicaConn.isSome ∧ r.replicatedSeq < r.commandLog.log.currentSeq
  | .read es => r.replicaConn.isSome ∧ NextBatch r.commandLog r.replicatedSeq es
  | .sending es client => client = r.replicaAddr ∧ NextBatch r.commandLog r.replicatedSeq es
  | .failed => True
  | .sent es => NextBatch r.commandLog r.replicatedSeq es ∧ ∀ e ∈ es, e ∈ r.appliedAt r.replicaAddr

structure ReplInv (r : CommandLogReplicator) : Prop where
  log        : LogInv r.commandLog
  sound      : WatermarkSound r
  bound      : r.replicatedSeq ≤ r.commandLog.log.currentSeq
  checkpoint : r.checkpoint.getD 0 ≤ r.replicatedSeq
  client     : r.replicaClient = r.replicaConn
  conn       : ∀ addr, r.replicaConn = some addr → addr = r.replicaAddr
  phase      : PhaseOk r r.phase

theorem replInv_start (partitionID : UInt32) (replicaAddr : String) (fileTime : Nat) :
    ReplInv (CommandLogReplicator.start partitionID replicaAddr fileTime) where
  log        := logInv_start partitionID fileTime
  sound      := by
    intro e he
    cases he
  bound      := by simp [CommandLogReplicator.start]
  checkpoint := le_rfl
  client     := rfl
  conn       := by simp [CommandLogReplicator.start]
  phase      := trivial

/-! ## The log under the replicator -/

/-- The log moves by at most one entry, numbered next. -/
theorem logStep_entries {s s' : LogRun} {a : LogAct} (h : LogInv s) (hs : Sane s a)
    (hne : ∀ keep fileTime, a ≠ .crash keep fileTime) (hst : logStep s a = some s') :
    s'.entries = s.entries ∨ ∃ e, s'.entries = s.entries ++ [e] ∧ e.sequence.toNat = s.entries.length + 1 := by
  obtain ⟨old, cur, h⟩ := h
  cases a with
  | append timestamp fileTime cmdType key value =>
    simp only [logStep] at hst
    split at hst
    · cases hst
    · rename_i log seq ha
      cases hst
      exact Or.inr ⟨_, rfl, (h.append hs ha).1⟩
  | flush n =>
    cases hst
    exact Or.inl rfl
  | sync =>
    cases hst
    exact Or.inl rfl
  | crash keep fileTime => exact absurd rfl (hne keep fileTime)

theorem currentSeq_eq {s : LogRun} (h : LogInv s) : s.log.currentSeq.toNat = s.entries.length := by
  obtain ⟨old, cur, h⟩ := h
  exact h.seq

theorem sequence_le {s : LogRun} (h : LogInv s) {e : CommandEntry} (he : e ∈ s.entries) :
    e.sequence.toNat ≤ s.entries.length := by
  obtain ⟨old, cur, h⟩ := h
  have hmem : e.sequence.toNat ∈ s.entries.map fun e => e.sequence.toNat := List.mem_map_of_mem he
  rw [h.numbered, List.mem_range'_1] at hmem
  omega

/-- `Close` writes everything out, so a reopened log has lost nothing. -/
theorem reopen_close {s : LogRun} (h : LogInv s) {fileTime : Nat} (ht : ∀ f ∈ s.log.files, f.fileNum < fileTime) :
    let closed := { s with log := s.log.close }
    LogInv (closed.reopen closed.log.current.data.length fileTime) ∧
      (closed.reopen closed.log.current.data.length fileTime).entries = s.entries := by
  obtain ⟨old, cur, h⟩ := h
  -- the same files as after a `Sync`
  have hsync := h.flushSync s.log.currentSeq h.seq.le
  have ht' : ∀ f ∈ s.log.sync.files, f.fileNum < fileTime := by
    intro f hf
    rcases List.mem_append.1 hf with hf | hf
    · exact ht f (List.mem_append_left _ hf)
    · obtain rfl : f = s.log.sync.current := by simpa using hf
      exact ht s.log.current (List.mem_append_right _ (by simp))
  obtain ⟨k, hk, hle, -, hent, hshape⟩ := hsync.reopen hsync.synced le_rfl ht'
  refine ⟨⟨_, _, hshape⟩, ?_⟩
  have hlen : s.entries.length ≤ old.entries.length + k := by
    rw [← h.seq]
    exact hle
  exact hent.trans (List.take_of_length_le hlen)

/-! ## One step -/

section
variable {r : CommandLogReplicator}

/-- A new entry has a number beyond every one in use. -/
theorem NextBatch.concat {log log' : LogRun} (h : LogInv log) {e : CommandEntry}
    (hent : log'.entries = log.entries ++ [e]) (he : e.sequence.toNat = log.entries.length + 1) {seq : UInt64}
    {es : List CommandEntry} (hb : NextBatch log seq es) : NextBatch log' seq es := by
  obtain ⟨front, last, rfl, hlast, hlt, hall⟩ := hb
  refine ⟨front, last, rfl, ?_, hlt, fun x hx hsx hxl => ?_⟩
  · rw [hent]
    exact List.mem_append_left _ hlast
  · rw [hent] at hx
    rcases List.mem_append.1 hx with hx | hx
    · exact hall x hx hsx hxl
    · obtain rfl : x = e := by simpa using hx
      rw [UInt64.le_iff_toNat_le, he] at hxl
      have := sequence_le h hlast
      omega

theorem NextBatch.of_entries {log log' : LogRun} (hent : log'.entries = log.entries) {seq : UInt64}
    {es : List CommandEntry} (hb : NextBatch log seq es) : NextBatch log' seq es := by
  obtain ⟨front, last, hes, hlast, hlt, hall⟩ := hb
  exact ⟨front, last, hes, hent ▸ hlast, hlt, fun x hx => hall x (hent ▸ hx)⟩

theorem ReplInv.logStep (h : ReplInv r) {a : LogAct} {l : LogRun} (hs : Sane r.commandLog a)
    (hne : ∀ keep fileTime, a ≠ .crash keep fileTime) (hst : logStep r.commandLog a = some l) :
    ReplInv { r with commandLog := l } := by
  have hinv := logInv_step h.log hs hst
  have hcase := logStep_entries h.log hs hne hst
  have hbatch : ∀ {seq es}, NextBatch r.commandLog seq es → NextBatch l seq es := by
    intro seq es hb
    rcases hcase with hent | ⟨e, hent, he⟩
    · exact hb.of_entries hent
    · exact hb.concat h.log hent he
  have hgrow : r.commandLog.log.currentSeq ≤ l.log.currentSeq := by
    rw [UInt64.le_iff_toNat_le, currentSeq_eq h.log, currentSeq_eq hinv]
    rcases hcase with hent | ⟨e, hent, -⟩ <;> simp [hent]
  refine ⟨hinv, ?_, UInt64.le_trans h.bound hgrow, h.checkpoint, h.client, h.conn, ?_⟩
  · intro x hx hle
    rcases hcase with hent | ⟨e, hent, he⟩
    · exact h.sound x (hent ▸ hx) hle
    · rw [show ({ r with commandLog := l } : CommandLogReplicator).commandLog.entries = _ from hent] at hx
      rcases List.mem_append.1 hx with hx | hx
      · exact h.sound x hx hle
      · obtain rfl : x = e := by simpa using hx
        have hb := h.bound
        rw [UInt64.le_iff_toNat_le] at hle hb
        rw [currentSeq_eq h.log] at hb
        have : x.sequence.toNat ≤ r.replicatedSeq.toNat := hle
        omega
  · have hp := h.phase
    cases hph : r.phase with
    | idle => trivial
    | failed => trivial
    | connected =>
      rw [hph] at hp
      exact ⟨hp.1, UInt64.lt_of_lt_of_le hp.2 hgrow⟩
    | read es =>
      rw [hph] at hp
      exact ⟨hp.1, hbatch hp.2⟩
    | sending es client =>
      rw [hph] at hp
      exact ⟨hp.1, hbatch hp.2⟩
    | sent es =>
      rw [hph] at hp
      exact ⟨hbatch hp.1, hp.2⟩

/-- What the replica has applied only grows. -/
theorem appliedAt_insert (r : CommandLogReplicator) (client addr : String) (es : List CommandEntry) (ph : Phase) :
    appliedAt { r with applied := r.applied.insert client (r.appliedAt client ++ es), phase := ph } addr
      = if addr = client then r.appliedAt client ++ es else r.appliedAt addr := by
  unfold appliedAt
  rw [OrdMap.get_insert]
  split_ifs <;> rfl

theorem ReplInv.reply (h : ReplInv r) {es : List CommandEntry} {client : String} (hph : r.phase = .sending es client)
    {n : Nat} {success : Option Bool} (hrel : success ≠ some false) (hn : success = some true → n = es.length) :
    ReplInv { r with
      applied := r.applied.insert client (r.appliedAt client ++ es.take n)
      phase := if success.isSome then .sent es else .failed } := by
  have hp := h.phase
  rw [hph] at hp
  obtain ⟨rfl, hbatch⟩ := hp
  refine ⟨h.log, ?_, h.bound, h.checkpoint, h.client, h.conn, ?_⟩
  · intro e he hle
    rw [appliedAt_insert, if_pos rfl]
    exact List.mem_append_left _ (h.sound e he hle)
  · cases success with
    | none => trivial
    | some b =>
      cases b with
      | false => exact absurd rfl hrel
      | true =>
        refine ⟨hbatch, fun e he => ?_⟩
        rw [appliedAt_insert, if_pos rfl, hn rfl, List.take_length]
        exact List.mem_append_right _ he

/-- The watermark moves to the end of a batch the replica has. -/
theorem ReplInv.store (h : ReplInv r) {es : List CommandEntry} (hph : r.phase = .sent es) (saved : Bool) :
    ReplInv { r with
      replicatedSeq := (es.getLastD (newEntry 0 0 0 [] [])).sequence
      checkpoint := if saved then some (es.getLastD (newEntry 0 0 0 [] [])).sequence else r.checkpoint
      phase := .idle } := by
  have hp := h.phase
  rw [hph] at hp
  obtain ⟨⟨front, last, rfl, hlast, hlt, hall⟩, happ⟩ := hp
  have hgl : ((front ++ [last]).getLastD (newEntry 0 0 0 [] [])).sequence = last.sequence := by simp
  rw [hgl]
  refine ⟨h.log, ?_, ?_, ?_, h.client, h.conn, trivial⟩
  · intro e he hle
    by_cases hold : e.sequence ≤ r.replicatedSeq
    · exact h.sound e he hold
    · exact happ e (hall e he (UInt64.not_le.1 hold) hle)
  · rw [UInt64.le_iff_toNat_le, currentSeq_eq h.log]
    exact sequence_le h.log hlast
  · cases saved with
    | true => exact le_rfl
    | false => exact UInt64.le_trans h.checkpoint (UInt64.le_of_lt hlt)

theorem ReplInv.closeConnection (h : ReplInv r) :
    ReplInv { r.closeConnection with phase := .idle } := by
  unfold CommandLogReplicator.closeConnection
  split_ifs with hc
  · exact ⟨h.log, h.sound, h.bound, h.checkpoint, rfl, by simp, trivial⟩
  · exact ⟨h.log, h.sound, h.bound, h.checkpoint, h.client, h.conn, trivial⟩

/-- Outside a round the address may change to a replica that has everything the watermark covers. -/
theorem ReplInv.setAddr (h : ReplInv r) (hph : r.phase = .idle) {addr : String}
    (happ : AppliedUpTo r r.replicatedSeq addr) : ReplInv { r with replicaAddr := addr }.closeConnection := by
  unfold CommandLogReplicator.closeConnection
  split_ifs with hc
  · refine ⟨h.log, happ, h.bound, h.checkpoint, rfl, by simp, ?_⟩
    rw [hph]
    trivial
  · refine ⟨h.log, happ, h.bound, h.checkpoint, h.client, fun a ha => ?_, ?_⟩
    · have hnone : r.replicaConn = none := by simpa using hc
      rw [show ({ r with replicaAddr := addr } : CommandLogReplicator).replicaConn = none from hnone] at ha
      cases ha
    · rw [show ({ r with replicaAddr := addr } : CommandLogReplicator).phase = .idle from hph]
      trivial

/-- A restart goes back to the checkpoint, which is never ahead. -/
theorem ReplInv.restart (h : ReplInv r) (hph : r.phase = .idle) {addr : String} {fileTime : Nat}
    (ht : ∀ f ∈ r.commandLog.log.files, f.fileNum < fileTime)
    (hrel : addr = r.replicaAddr ∨ AppliedUpTo r (r.checkpoint.getD 0) addr) {closed : LogRun}
    (hcl : closed = { r.commandLog with log := r.commandLog.log.close }) :
    ReplInv { r with
      commandLog := closed.reopen closed.log.current.data.length fileTime
      replicaAddr := addr
      replicatedSeq := r.checkpoint.getD 0
      replicaConn := none
      replicaClient := none } := by
  subst hcl
  obtain ⟨hinv, hent⟩ := reopen_close h.log ht
  refine ⟨hinv, ?_, ?_, le_rfl, rfl, by simp, ?_⟩
  · intro e he hle
    rw [show _ = r.commandLog.entries from hent] at he
    rcases hrel with rfl | happ
    · exact h.sound e he (UInt64.le_trans hle h.checkpoint)
    · exact happ e he hle
  · rw [UInt64.le_iff_toNat_le, currentSeq_eq hinv, hent, ← currentSeq_eq h.log]
    exact UInt64.le_iff_toNat_le.1 (UInt64.le_trans h.checkpoint h.bound)
  · rw [show _ = Phase.idle from hph]
    trivial

end

theorem replInv_step {r r' : CommandLogReplicator} {a : ReplAct} (h : ReplInv r) (hrel : Reliable r a)
    (hst : replStep r a = some r') : ReplInv r' := by
  have hp := h.phase
  cases replStep_cases hst with
  | log hne hl => exact h.logStep hrel hne hl
  | stay => exact h
  | connected dialled hbehind hconn =>
    exact ⟨h.log, h.sound, h.bound, h.checkpoint, h.client, h.conn, hconn, hbehind⟩
  | dialled hbehind => exact ⟨h.log, h.sound, h.bound, h.checkpoint, rfl, by simp, rfl, hbehind⟩
  | readNothing => exact ⟨h.log, h.sound, h.bound, h.checkpoint, h.client, h.conn, trivial⟩
  | read hph hread =>
    rw [hph] at hp
    exact ⟨h.log, h.sound, h.bound, h.checkpoint, h.client, h.conn, hp.1, nextBatch_readFrom h.log hp.2 hread⟩
  | noClient hph hclient =>
    -- the client cannot be gone: the connection was made in this round
    rw [hph] at hp
    rw [h.client] at hclient
    simp [hclient, PhaseOk] at hp
  | @client es client hph hclient =>
    rw [hph] at hp
    exact ⟨h.log, h.sound, h.bound, h.checkpoint, h.client, h.conn, h.conn client (h.client ▸ hclient), hp.2⟩
  | reply hph hn => exact h.reply hph hrel hn.2
  | dropConnection => exact h.closeConnection
  | store saved hph => exact h.store hph saved
  | sameAddr => exact h
  | newAddr hne =>
    rcases hrel with rfl | ⟨hph, happ⟩
    · exact absurd rfl hne
    · exact h.setAddr hph happ
  | restart hph hclosed => exact h.restart hph hrel.1 hrel.2 hclosed

/-- **The watermark is sound** in every run without a rejected batch in which the address changes only outside
a round, and to a replica that has what the watermark covers. -/
theorem watermark_sound {partitionID : UInt32} {replicaAddr : String} {fileTime : Nat} {as : List ReplAct}
    {r : CommandLogReplicator}
    (hrel : Along replStep Reliable (CommandLogReplicator.start partitionID replicaAddr fileTime) as)
    (hrun : run replStep (CommandLogReplicator.start partitionID replicaAddr fileTime) as = some r) :
    WatermarkSound r :=
  (run_inv_along (fun _ _ _ hi hc hst => replInv_step hi hc hst)
    (replInv_start partitionID replicaAddr fileTime) hrel hrun).sound

/-- A round with one entry: answered, and stored. -/
def oneRound (n : Nat) (success : Option Bool) : List ReplAct :=
  [.log (.append 0 2 1 [1] [2]), .log .sync, .connect true, .readLog, .loadClient, .reply n success, .store true]

theorem watermark_sound_after_round :
    ∃ r, run replStep (CommandLogReplicator.start 7 "B" 1) (oneRound 1 (some true)) = some r ∧ WatermarkSound r := by
  have hrun : (run replStep (CommandLogReplicator.start 7 "B" 1) (oneRound 1 (some true))).isSome = true := by
    decide +kernel
  obtain ⟨r, hr⟩ := Option.isSome_iff_exists.1 hrun
  exact ⟨r, hr, watermark_sound (by decide +kernel) hr⟩

/-- **Bug**: the replica does not host the partition and rejects the batch; the watermark moves past the entry
all the same, and no later round sends it. -/
theorem rejected_batch_moves_watermark :
    ∃ r, run replStep (CommandLogReplicator.start 7 "B" 1) (oneRound 0 (some false)) = some r ∧
      r.replicatedSeq = 1 ∧ ¬ WatermarkSound r :=
  exists_run (by decide +kernel)

end RocksKV.Storage
