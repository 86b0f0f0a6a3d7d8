import RocksKV.Lib.Bytes
import RocksKV.Lib.Ring
import RocksKV.Lib.Run
/-!
# The WAL replicator (`pkg/storage/wal_replicator.go`)

| here | there |
| --- | --- |
| `walBatchSize`, `walBufferSize` | `WALBatchSize`, `WALBufferSize` (`:21-25`) |
| `WALEntry`, `WALReplicator`     | the types of these names (`:31-66`); a connection and its client are set and dropped together |
| `newWALReplicator`              | `NewWALReplicator` (`:69-81`) |
| `append`                        | `Append` (`:119-143`); `none` is the panic on a negative slot, after `2 ^ 63` entries |
| `collectEntries`                | `collectEntries` (`:260-278`) |
| `Reply`                         | what `sendBatch` (`:281-327`) gets for its call: an error, or an answer without or with `Success` |
| `sendBatches`                   | the loop of `syncToReplica` (`:229-256`) |
| `syncToReplica`                 | `syncToReplica` (`:205-257`) |

`WalRun` adds to the replicator what was appended and which batches `sendBatch` reported no error for.

**Bug**: `collectEntries` returns the entries in the order of their slots. As long as those that are pending lie in one
lap of the ring, that is the order of their sequence numbers and none is missing. Otherwise the newest lap comes
first, and entries that were overwritten before they were sent are not there at all (`collect_wrapped`); the batches go
out like that, and `replicatedSeq` moves past what was left out. A batch the replica answers without `Success` counts
as replicated as well.
-/

namespace RocksKV.Storage

open Lib

def walBatchSize : Nat := 500

def walBufferSize : Nat := 100000

structure WALEntry where
  sequence  : Nat
  key       : Bytes
  value     : Bytes
  isDelete  : Bool
  timestamp : Int64
  deriving DecidableEq

structure WALReplicator where
  isPrimary     : Bool
  currentSeq    : Nat
  replicatedSeq : Nat
  buffer        : List (Option WALEntry)
  /-- The next write index, which is reduced to a slot when it is used. -/
  bufferIdx     : Nat
  connected     : Bool

def newWALReplicator (size : Nat) (isPrimary : Bool) : WALReplicator :=
  { isPrimary := isPrimary, currentSeq := 0, replicatedSeq := 0, buffer := List.replicate size none
    bufferIdx := 0, connected := false }

namespace WALReplicator

/-- The entry `Append` makes of a write. -/
def entry (wr : WALReplicator) (key value : Bytes) (isDelete : Bool) (timestamp : Int64) : WALEntry :=
  { sequence := wr.currentSeq + 1, key := key, value := value, isDelete := isDelete, timestamp := timestamp }

def append (size : Nat) (wr : WALReplicator) (key value : Bytes) (isDelete : Bool) (timestamp : Int64) :
    Option (WALReplicator × Nat) :=
  if !wr.isPrimary then some (wr, 0)
  else if 2 ^ 63 ≤ wr.bufferIdx then none
  else
    let entry := wr.entry key value isDelete timestamp
    some ({ wr with
        currentSeq := entry.sequence
        bufferIdx := wr.bufferIdx + 1
        buffer := wr.buffer.set (wr.bufferIdx % size) (some entry) }, entry.sequence)

def collectEntries (wr : WALReplicator) (fromSeq toSeq : Nat) : List WALEntry :=
  (wr.buffer.filterMap id).filter fun entry => decide (fromSeq ≤ entry.sequence) && decide (entry.sequence ≤ toSeq)

end WALReplicator

inductive Reply
  | failed | rejected | accepted
  deriving DecidableEq

structure WalRun where
  wr       : WALReplicator
  /-- Everything that was appended. -/
  appended : List WALEntry
  /-- The batches `sendBatch` returned no error for, each with whether the replica answered `Success`. -/
  sent     : List (List WALEntry × Bool)

namespace WalRun

def start (size : Nat) (isPrimary : Bool) : WalRun :=
  { wr := newWALReplicator size isPrimary, appended := [], sent := [] }

def sentSeqs (s : WalRun) : List Nat := (s.sent.flatMap Prod.fst).map WALEntry.sequence

/-- Of these, what the replica accepted. -/
def acceptedSeqs (s : WalRun) : List Nat := ((s.sent.filter Prod.snd).flatMap Prod.fst).map WALEntry.sequence

/-- `batch` went out, and `replicatedSeq` is its last sequence number. -/
def batchSent (s : WalRun) (batch : List WALEntry) (accepted : Bool) : WalRun :=
  { s with
    wr := { s.wr with replicatedSeq := (batch.getLast?.map WALEntry.sequence).getD s.wr.replicatedSeq }
    sent := s.sent ++ [(batch, accepted)] }

/-- The batches of `entries`, of which the next is the `i`-th of the round. -/
def sendBatches (batchSize : Nat) (replies : Nat → Reply) (s : WalRun) : (fuel i : Nat) → List WALEntry → WalRun
  | 0, _, _ => s
  | fuel + 1, i, entries =>
    if entries.length = 0 then s
    else match replies i with
      | .failed => { s with wr := { s.wr with connected := false } }
      | reply =>
        (s.batchSent (entries.take batchSize) (decide (reply = .accepted))).sendBatches batchSize replies fuel (i + 1)
          (entries.drop batchSize)

def syncToReplica (batchSize : Nat) (connects : Bool) (replies : Nat → Reply) (s : WalRun) : WalRun :=
  if s.wr.currentSeq ≤ s.wr.replicatedSeq then s
  else if !(s.wr.connected || connects) then s
  else
    let entries := s.wr.collectEntries (s.wr.replicatedSeq + 1) s.wr.currentSeq
    WalRun.sendBatches batchSize replies { s with wr := { s.wr with connected := true } } entries.length 0 entries

end WalRun

inductive WalAct
  | append (key value : Bytes) (isDelete : Bool) (timestamp : Int64)
  | round (connects : Bool) (replies : Nat → Reply)

def walStep (size batchSize : Nat) (s : WalRun) : WalAct → Option WalRun
  | .append key value isDelete timestamp =>
    (s.wr.append size key value isDelete timestamp).map fun (wr, seq) =>
      { s with
        wr := wr
        appended := if seq = 0 then s.appended else s.appended ++ [s.wr.entry key value isDelete timestamp] }
  | .round connects replies => some (s.syncToReplica batchSize connects replies)

/-- The numbers `1, …, r` in this order, though one may come again: each comes after all smaller ones. -/
def InOrder (seqs : List Nat) (r : Nat) : Prop :=
  (∀ n, n ∈ seqs ↔ 1 ≤ n ∧ n ≤ r) ∧ ∀ pre n post, seqs = pre ++ n :: post → ∀ m, 1 ≤ m → m < n → m ∈ pre

/-- The round reports a batch as sent. -/
def Sends (s : WalRun) (connects : Bool) (replies : Nat → Reply) : Prop :=
  s.wr.replicatedSeq < s.wr.currentSeq ∧ (s.wr.connected || connects) = true ∧ replies 0 ≠ .failed

/-- A round that sends something finds all pending entries in one lap of the ring. -/
def OneLap (size : Nat) (s : WalRun) : WalAct → Prop
  | .append .. => True
  | .round connects replies =>
    Sends s connects replies → s.wr.replicatedSeq / size = (s.wr.currentSeq - 1) / size

/-! ## Sequenced entries -/

/-- The entries are numbered from one on. -/
def Sequenced (log : List WALEntry) : Prop := log.map WALEntry.sequence = List.range' 1 log.length

theorem take_range' (n s r : Nat) : (List.range' s r).take n = List.range' s (min n r) := by
  rw [List.range'_eq_map_range, ← List.map_take, List.take_range, ← List.range'_eq_map_range]

theorem Sequenced.map_take {log : List WALEntry} (h : Sequenced log) (n : Nat) :
    (log.take n).map WALEntry.sequence = List.range' 1 (min n log.length) := by
  rw [List.map_take, h, take_range']

theorem Sequenced.map_drop {log : List WALEntry} (h : Sequenced log) (n : Nat) :
    (log.drop n).map WALEntry.sequence = List.range' (1 + n) (log.length - n) := by
  rw [List.map_drop, h, List.drop_range', Nat.mul_one]

theorem Sequenced.of_mem_take {log : List WALEntry} (h : Sequenced log) {n : Nat} {e : WALEntry} (he : e ∈ log.take n) :
    1 ≤ e.sequence ∧ e.sequence ≤ n := by
  have hmem := List.mem_map_of_mem (f := WALEntry.sequence) he
  rw [h.map_take, List.mem_range'_1] at hmem
  omega

theorem Sequenced.of_mem_drop {log : List WALEntry} (h : Sequenced log) {n : Nat} {e : WALEntry} (he : e ∈ log.drop n) :
    n < e.sequence ∧ e.sequence ≤ log.length := by
  have hmem := List.mem_map_of_mem (f := WALEntry.sequence) he
  rw [h.map_drop, List.mem_range'_1] at hmem
  omega

theorem Sequenced.concat {log : List WALEntry} (h : Sequenced log) {e : WALEntry} (he : e.sequence = log.length + 1) :
    Sequenced (log ++ [e]) := by
  rw [Sequenced, List.map_append, h, List.length_append, List.length_singleton, List.range'_1_concat, List.map_singleton, he,
    Nat.add_comm 1]

/-! ## What a round collects -/

/-- Of the entries behind the first `a`, the filter of a collection keeps those behind the first `r`. -/
theorem Sequenced.filter_drop {log : List WALEntry} (h : Sequenced log) (a r : Nat) :
    (log.drop a).filter (fun e => decide (r + 1 ≤ e.sequence) && decide (e.sequence ≤ log.length)) =
      log.drop (max a r) := by
  have hkeep : (log.drop (max a r)).filter
      (fun e => decide (r + 1 ≤ e.sequence) && decide (e.sequence ≤ log.length)) = log.drop (max a r) := by
    refine List.filter_eq_self.2 fun e he => ?_
    have hseq := h.of_mem_drop he
    simp only [Bool.and_eq_true, decide_eq_true_iff]
    omega
  have hout : ((log.drop a).take (max a r - a)).filter
      (fun e => decide (r + 1 ≤ e.sequence) && decide (e.sequence ≤ log.length)) = [] := by
    refine List.filter_eq_nil_iff.2 fun e he => ?_
    have hlow := (h.of_mem_drop (List.mem_of_mem_take he)).1
    rw [← List.drop_take] at he
    have hhigh := (h.of_mem_take (List.mem_of_mem_drop he)).2
    simp only [Bool.and_eq_true, decide_eq_true_iff]
    omega
  have hsplit : log.drop a = (log.drop a).take (max a r - a) ++ log.drop (max a r) := by
    rw [← show a + (max a r - a) = max a r by omega, ← List.drop_drop,
      show a + (max a r - a) - a = max a r - a by omega, List.take_append_drop]
  rw [hsplit, List.filter_append, hout, hkeep, List.nil_append]

section
variable {size : Nat} (hsize : 0 < size) {log : List WALEntry} (hlog : Sequenced log) {wr : WALReplicator}
  (hbuffer : wr.buffer = ring size log)
include hsize hlog hbuffer

/-- The slots hold nothing but the last `size` entries. -/
theorem of_mem_buffer {e : WALEntry} (he : e ∈ wr.buffer.filterMap id) :
    e.sequence ≤ log.length ∧ log.length < e.sequence + size := by
  by_cases hnil : log = []
  · rw [hbuffer, hnil, ring_nil, List.mem_filterMap] at he
    obtain ⟨o, ho, heq⟩ := he
    rw [List.eq_of_mem_replicate ho] at heq
    cases heq
  · have hlap := Nat.div_add_mod (log.length - 1) size
    have hmod := Nat.mod_lt (log.length - 1) hsize
    rw [hbuffer, filterMap_ring hsize hnil, List.mem_append] at he
    rcases he with he | he
    · have hseq := hlog.of_mem_drop he
      omega
    · rw [List.drop_take] at he
      have hseq := hlog.of_mem_drop (List.mem_of_mem_take he)
      omega

/-- **Within one lap** the pending entries are collected in the order in which they were appended. -/
theorem collect_oneLap {r : Nat} (hr : r < log.length) (hlap : r / size = (log.length - 1) / size) :
    wr.collectEntries (r + 1) log.length = log.drop r := by
  have hstart : size * (r / size) ≤ r := Nat.mul_div_le r size
  have hnil : log ≠ [] := List.ne_nil_of_length_pos (by omega)
  have hbefore : ((log.take (size * ((log.length - 1) / size))).drop (log.length - size)).filter
      (fun e => decide (r + 1 ≤ e.sequence) && decide (e.sequence ≤ log.length)) = [] := by
    refine List.filter_eq_nil_iff.2 fun e he => ?_
    have hseq := (hlog.of_mem_take (List.mem_of_mem_drop he)).2
    rw [← hlap] at hseq
    simp only [Bool.and_eq_true, decide_eq_true_iff]
    omega
  rw [WALReplicator.collectEntries, hbuffer, filterMap_ring hsize hnil, List.filter_append, hbefore, List.append_nil,
    hlog.filter_drop, ← hlap, Nat.max_eq_right hstart]

/-- **Otherwise** the first one collected is the first of the lap of the last one, and not the first pending one. -/
theorem collect_wrapped {r : Nat} (hr : r < log.length) (hlap : r / size ≠ (log.length - 1) / size) :
    ∃ e rest, wr.collectEntries (r + 1) log.length = e :: rest ∧ r + 1 < e.sequence := by
  have hlt : r / size < (log.length - 1) / size := lt_of_le_of_ne (Nat.div_le_div_right (by omega)) hlap
  have hstart : r < size * ((log.length - 1) / size) := by
    rw [Nat.mul_comm]
    exact Nat.div_lt_iff_lt_mul hsize |>.1 hlt
  have hend : size * ((log.length - 1) / size) ≤ log.length - 1 := Nat.mul_div_le _ size
  have hnil : log ≠ [] := List.ne_nil_of_length_pos (by omega)
  have hcollect : wr.collectEntries (r + 1) log.length = log.drop (size * ((log.length - 1) / size)) ++
      ((log.take (size * ((log.length - 1) / size))).drop (log.length - size)).filter
        (fun e => decide (r + 1 ≤ e.sequence) && decide (e.sequence ≤ log.length)) := by
    rw [WALReplicator.collectEntries, hbuffer, filterMap_ring hsize hnil, List.filter_append, hlog.filter_drop,
      Nat.max_eq_left hstart.le]
  obtain ⟨e, rest, hcons⟩ := List.exists_cons_of_length_pos
    (show 0 < (log.drop (size * ((log.length - 1) / size))).length by rw [List.length_drop]; omega)
  have hseq := (hlog.of_mem_drop (hcons ▸ List.mem_cons_self)).1
  exact ⟨e, rest ++ _, by rw [hcollect, hcons, List.cons_append], by omega⟩

end

/-! ## What a round sends -/

/-- The state once `entries` have gone out in the batches `more`. -/
def WalRun.afterSending (s : WalRun) (entries : List WALEntry) (more : List (List WALEntry × Bool)) (connected : Bool) :
    WalRun :=
  { s with
    wr := { s.wr with
      replicatedSeq := (entries.getLast?.map WALEntry.sequence).getD s.wr.replicatedSeq
      connected := connected }
    sent := s.sent ++ more }

theorem afterSending_batchSent (s : WalRun) (batch rest : List WALEntry) (accepted : Bool)
    (more : List (List WALEntry × Bool)) (connected : Bool) :
    (s.batchSent batch accepted).afterSending rest more connected =
      s.afterSending (batch ++ rest) ((batch, accepted) :: more) connected := by
  have hlast : (rest.getLast?.map WALEntry.sequence).getD
      ((batch.getLast?.map WALEntry.sequence).getD s.wr.replicatedSeq) =
      ((batch ++ rest).getLast?.map WALEntry.sequence).getD s.wr.replicatedSeq := by
    rw [List.getLast?_append]
    cases rest.getLast? <;> rfl
  simp only [WalRun.afterSending, WalRun.batchSent, hlast, List.append_assoc, List.singleton_append]

/-- From `s` to `s'` the entries have gone out, in batches of at least one. -/
def WentOut (s s' : WalRun) (entries : List WALEntry) : Prop :=
  ∃ more connected, s' = s.afterSending entries more connected ∧ more.flatMap Prod.fst = entries ∧ ∀ b ∈ more, b.1 ≠ []

theorem wentOut_nil (s : WalRun) (connected : Bool) : WentOut s { s with wr := { s.wr with connected := connected } } [] :=
  ⟨[], connected, by simp [WalRun.afterSending], rfl, by simp⟩

theorem WentOut.of_batchSent {s s' : WalRun} {batch rest : List WALEntry} {accepted : Bool} (hbatch : batch ≠ [])
    (h : WentOut (s.batchSent batch accepted) s' rest) : WentOut s s' (batch ++ rest) := by
  obtain ⟨more, connected, rfl, hmore, hne⟩ := h
  refine ⟨(batch, accepted) :: more, connected, afterSending_batchSent .., ?_, List.forall_mem_cons.2 ⟨hbatch, hne⟩⟩
  rw [List.flatMap_cons, hmore]

theorem WentOut.sentSeqs {s s' : WalRun} {entries : List WALEntry} (h : WentOut s s' entries) :
    s'.sentSeqs = s.sentSeqs ++ entries.map WALEntry.sequence := by
  obtain ⟨more, connected, rfl, hmore, -⟩ := h
  rw [WalRun.sentSeqs, WalRun.afterSending, List.flatMap_append, hmore, List.map_append]
  rfl

/-- **The loop over the batches** sends the first so many of the entries; it sends none of them only if there is none or
the first batch fails. -/
theorem sendBatches_spec {batchSize : Nat} (hbatch : 0 < batchSize) (replies : Nat → Reply) :
    ∀ (fuel i : Nat) (entries : List WALEntry) (s : WalRun), entries.length ≤ fuel →
      ∃ n, WentOut s (s.sendBatches batchSize replies fuel i entries) (entries.take n) ∧
        (n = 0 ↔ replies i = .failed ∨ entries = [])
  | 0, i, entries, s, hfuel => by
    have hnil : entries = [] := List.eq_nil_of_length_eq_zero (by omega)
    exact ⟨0, wentOut_nil s s.wr.connected, by simp [hnil]⟩
  | fuel + 1, i, entries, s, hfuel => by
    rw [WalRun.sendBatches]
    by_cases hnil : entries = []
    · rw [if_pos (by simp [hnil])]
      exact ⟨0, wentOut_nil s s.wr.connected, by simp [hnil]⟩
    · have hlen : entries.length ≠ 0 := by simpa using hnil
      have hfirst : entries.take batchSize ≠ [] := List.ne_nil_of_length_pos (by rw [List.length_take]; omega)
      have hgo : ∀ accepted, ∃ n, WentOut s ((s.batchSent (entries.take batchSize) accepted).sendBatches batchSize replies
          fuel (i + 1) (entries.drop batchSize)) (entries.take n) ∧ n ≠ 0 := by
        intro accepted
        obtain ⟨n, hout, -⟩ := sendBatches_spec hbatch replies fuel (i + 1) (entries.drop batchSize)
          (s.batchSent (entries.take batchSize) accepted) (by rw [List.length_drop]; omega)
        refine ⟨batchSize + n, ?_, by omega⟩
        rw [List.take_add]
        exact hout.of_batchSent hfirst
      rw [if_neg hlen]
      cases hreply : replies i with
      | failed => exact ⟨0, wentOut_nil s false, by simp⟩
      | rejected =>
        obtain ⟨n, hout, hn⟩ := hgo false
        exact ⟨n, hout, iff_of_false hn (by simp [hnil])⟩
      | accepted =>
        obtain ⟨n, hout, hn⟩ := hgo true
        exact ⟨n, hout, iff_of_false hn (by simp [hnil])⟩

/-- What a round collects. -/
def WalRun.pending (s : WalRun) : List WALEntry := s.wr.collectEntries (s.wr.replicatedSeq + 1) s.wr.currentSeq

/-- **One round** sends nothing, or first entries of what it collects. -/
theorem syncToReplica_spec {batchSize : Nat} (hbatch : 0 < batchSize) (connects : Bool) (replies : Nat → Reply)
    (s : WalRun) :
    ∃ n, WentOut s (s.syncToReplica batchSize connects replies) (s.pending.take n) ∧
      (¬ Sends s connects replies → n = 0) ∧ (Sends s connects replies → s.pending ≠ [] → n ≠ 0) := by
  unfold WalRun.syncToReplica
  split_ifs with hseq hconn
  · exact ⟨0, wentOut_nil s s.wr.connected, fun _ => rfl, fun hsends => absurd hsends.1 (not_lt.2 hseq)⟩
  · refine ⟨0, wentOut_nil s s.wr.connected, fun _ => rfl, fun hsends => ?_⟩
    rw [hsends.2.1] at hconn
    cases hconn
  · obtain ⟨n, hout, hn⟩ := sendBatches_spec hbatch replies _ 0 s.pending
      { s with wr := { s.wr with connected := true } } le_rfl
    refine ⟨n, hout, fun hsends => ?_, fun hsends hpending h0 => ?_⟩
    · refine hn.2 (.inl ?_)
      by_contra hok
      exact hsends ⟨not_le.1 hseq, by rwa [Bool.not_eq_true', Bool.not_eq_false] at hconn, hok⟩
    · rcases hn.1 h0 with hfailed | hnil
      · exact hsends.2.2 hfailed
      · exact hpending hnil

/-! ## Invariants of runs -/

/-- What the replicator's fields are after any run. -/
structure WalRun.Ok (size : Nat) (s : WalRun) : Prop where
  numbered   : Sequenced s.appended
  buffer     : s.wr.buffer = ring size s.appended
  bufferIdx  : s.wr.bufferIdx = s.appended.length
  currentSeq : s.wr.currentSeq = s.appended.length
  replicated : s.wr.replicatedSeq ≤ s.appended.length
  batches    : ∀ b ∈ s.sent, b.1 ≠ []

theorem WalRun.ok_start (size : Nat) (isPrimary : Bool) : (WalRun.start size isPrimary).Ok size where
  numbered   := rfl
  buffer     := (ring_nil size).symm
  bufferIdx  := rfl
  currentSeq := rfl
  replicated := le_rfl
  batches    := by simp [WalRun.start]

/-- The state once a primary has appended an entry. -/
def WalRun.withEntry (size : Nat) (s : WalRun) (key value : Bytes) (isDelete : Bool) (timestamp : Int64) : WalRun :=
  { s with
    wr := { s.wr with
      currentSeq := s.wr.currentSeq + 1
      bufferIdx := s.wr.bufferIdx + 1
      buffer := s.wr.buffer.set (s.wr.bufferIdx % size) (some (s.wr.entry key value isDelete timestamp)) }
    appended := s.appended ++ [s.wr.entry key value isDelete timestamp] }

theorem walStep_append {size batchSize : Nat} {s : WalRun} (hprimary : s.wr.isPrimary = true)
    (hidx : s.wr.bufferIdx < 2 ^ 63) (key value : Bytes) (isDelete : Bool) (timestamp : Int64) :
    walStep size batchSize s (.append key value isDelete timestamp) =
      some (s.withEntry size key value isDelete timestamp) := by
  have hnot : ¬ (!s.wr.isPrimary) = true := by simp [hprimary]
  rw [walStep, WALReplicator.append, if_neg hnot, if_neg (not_le.2 hidx)]
  rfl

/-- **What a step can do**: nothing, append an entry, or send what a round collects, up to some place. -/
theorem walStep_cases {size batchSize : Nat} (hbatch : 0 < batchSize) {s s' : WalRun} {a : WalAct}
    (h : walStep size batchSize s a = some s') :
    (s' = s ∧ ∃ key value isDelete timestamp, a = .append key value isDelete timestamp) ∨
    (∃ key value isDelete timestamp, a = .append key value isDelete timestamp ∧
      s' = s.withEntry size key value isDelete timestamp) ∨
    ∃ connects replies n, a = .round connects replies ∧ WentOut s s' (s.pending.take n) ∧
      (¬ Sends s connects replies → n = 0) ∧ (Sends s connects replies → s.pending ≠ [] → n ≠ 0) := by
  cases a with
  | append key value isDelete timestamp =>
    cases hprimary : s.wr.isPrimary with
    | false =>
      rw [walStep, WALReplicator.append, if_pos (by simp [hprimary])] at h
      cases h
      exact .inl ⟨rfl, _, _, _, _, rfl⟩
    | true =>
      by_cases hidx : s.wr.bufferIdx < 2 ^ 63
      · rw [walStep_append hprimary hidx] at h
        cases h
        exact .inr (.inl ⟨_, _, _, _, rfl, rfl⟩)
      · rw [walStep, WALReplicator.append, if_neg (by simp [hprimary]), if_pos (not_lt.1 hidx)] at h
        cases h
  | round connects replies =>
    cases h
    obtain ⟨n, hspec⟩ := syncToReplica_spec hbatch connects replies s
    exact .inr (.inr ⟨connects, replies, n, rfl, hspec⟩)

theorem WalRun.Ok.step {size batchSize : Nat} (hsize : 0 < size) (hbatch : 0 < batchSize) {s s' : WalRun} {a : WalAct}
    (h : s.Ok size) (hstep : walStep size batchSize s a = some s') : s'.Ok size := by
  obtain ⟨rfl, -⟩ | ⟨key, value, isDelete, timestamp, -, rfl⟩ |
    ⟨connects, replies, n, -, ⟨more, connected, rfl, hmore, hne⟩, -⟩ := walStep_cases hbatch hstep
  · exact h
  · exact {
      numbered := h.numbered.concat (by rw [← h.currentSeq]; rfl)
      buffer := by
        rw [WalRun.withEntry, ring_concat hsize, ← h.buffer, ← h.bufferIdx]
      bufferIdx := by simp [WalRun.withEntry, h.bufferIdx]
      currentSeq := by simp [WalRun.withEntry, h.currentSeq]
      replicated := h.replicated.trans (by simp [WalRun.withEntry])
      batches := h.batches }
  · refine { h with replicated := ?_, batches := fun b hb => ?_ }
    · -- the last entry of the last batch is one of those in the buffer
      dsimp only [WalRun.afterSending]
      cases hlast : (s.pending.take n).getLast? with
      | none => exact h.replicated
      | some e =>
        have hmem := (List.mem_filter.1 (List.mem_of_mem_take (List.mem_of_getLast? hlast))).1
        exact (of_mem_buffer hsize h.numbered h.buffer hmem).1
    · rcases List.mem_append.1 hb with hb | hb
      · exact h.batches b hb
      · exact hne b hb

/-- What is sent is never taken back. -/
theorem sentSeqs_step {size batchSize : Nat} (hbatch : 0 < batchSize) {s s' : WalRun} {a : WalAct}
    (hstep : walStep size batchSize s a = some s') :
    ∃ more, s'.sentSeqs = s.sentSeqs ++ more := by
  obtain ⟨rfl, -⟩ | ⟨key, value, isDelete, timestamp, -, rfl⟩ |
    ⟨connects, replies, n, -, hout, -⟩ := walStep_cases hbatch hstep
  · exact ⟨[], (List.append_nil _).symm⟩
  · exact ⟨[], (List.append_nil _).symm⟩
  · exact ⟨_, hout.sentSeqs⟩

/-- What has been sent is what was appended, up to the watermark. -/
def WalRun.UpToDate (s : WalRun) : Prop := s.sent.flatMap Prod.fst = s.appended.take s.wr.replicatedSeq

/-- An entry went out before a smaller one. -/
def WalRun.Jumped (s : WalRun) : Prop :=
  ∃ pre n post, s.sentSeqs = pre ++ n :: post ∧ ∃ m, 1 ≤ m ∧ m < n ∧ m ∉ pre

theorem inOrder_range' (r : Nat) : InOrder (List.range' 1 r) r := by
  refine ⟨fun n => by rw [List.mem_range'_1]; omega, fun pre n post h m hm hmn => ?_⟩
  -- what stands before `n` is `1, …, n - 1`
  have hpre : pre = List.range' 1 (min pre.length r) := by
    rw [← take_range', h, List.take_left' rfl]
  have hn : 1 + pre.length = n := by
    have hget := congrArg (fun l => l[pre.length]?) h
    simp only [List.getElem?_append_right le_rfl, Nat.sub_self, List.getElem?_cons_zero] at hget
    obtain ⟨hlt, hval⟩ := List.getElem?_eq_some_iff.1 hget
    rw [List.getElem_range'] at hval
    omega
  have hlen : pre.length < r := by
    have hlen := congrArg List.length h
    simp only [List.length_range', List.length_append, List.length_cons] at hlen
    omega
  rw [hpre, List.mem_range'_1]
  omega

theorem WalRun.UpToDate.sentSeqs {size : Nat} {s : WalRun} (hok : s.Ok size) (h : s.UpToDate) :
    s.sentSeqs = List.range' 1 s.wr.replicatedSeq := by
  rw [WalRun.sentSeqs, h, hok.numbered.map_take, Nat.min_eq_left hok.replicated]

theorem not_jumped_of_inOrder {s : WalRun} (h : InOrder s.sentSeqs s.wr.replicatedSeq) : ¬ s.Jumped := by
  rintro ⟨pre, n, post, heq, m, hm, hmn, hmem⟩
  exact hmem (h.2 pre n post heq m hm hmn)

section
variable {size batchSize : Nat} (hsize : 0 < size) (hbatch : 0 < batchSize) {s s' : WalRun} {a : WalAct}
include hbatch

theorem WalRun.Jumped.step (h : s.Jumped) (hstep : walStep size batchSize s a = some s') : s'.Jumped := by
  obtain ⟨pre, n, post, heq, hm⟩ := h
  obtain ⟨more, hmore⟩ := sentSeqs_step hbatch hstep
  exact ⟨pre, n, post ++ more, by rw [hmore, heq, List.append_assoc, List.cons_append], hm⟩

include hsize

/-- **A round within one lap** sends the next entries. -/
theorem WalRun.UpToDate.step (hok : s.Ok size) (h : s.UpToDate) (hlap : OneLap size s a)
    (hstep : walStep size batchSize s a = some s') : s'.UpToDate := by
  obtain ⟨rfl, -⟩ | ⟨key, value, isDelete, timestamp, -, rfl⟩ |
    ⟨connects, replies, n, rfl, ⟨more, connected, rfl, hmore, -⟩, hnone, -⟩ := walStep_cases hbatch hstep
  · exact h
  · rw [WalRun.UpToDate]
    dsimp only [WalRun.withEntry]
    rw [List.take_append_of_le_length hok.replicated]
    exact h
  · by_cases hsends : Sends s connects replies
    · have hr : s.wr.replicatedSeq < s.appended.length := hok.currentSeq ▸ hsends.1
      have hcollect := collect_oneLap hsize hok.numbered hok.buffer hr (hok.currentSeq ▸ hlap hsends)
      rw [WalRun.pending, hok.currentSeq, hcollect] at hmore ⊢
      -- the watermark is the number of the last one sent
      have hlast : (((s.appended.drop s.wr.replicatedSeq).take n).getLast?.map WALEntry.sequence).getD
          s.wr.replicatedSeq = min (s.wr.replicatedSeq + n) s.appended.length := by
        rw [← List.getLast?_map, List.map_take, hok.numbered.map_drop, take_range', List.getLast?_range']
        split_ifs with hzero
        · rw [Option.getD_none]
          omega
        · rw [Option.getD_some]
          omega
      rw [WalRun.UpToDate]
      dsimp only [WalRun.afterSending]
      rw [List.flatMap_append, h, hmore, hlast, ← List.take_add, ← List.take_eq_take_min]
    · rw [hnone hsends, List.take_zero] at hmore ⊢
      rw [WalRun.UpToDate]
      dsimp only [WalRun.afterSending]
      rw [List.flatMap_append, hmore, List.append_nil]
      exact h

/-- **A round across laps** that sends something sends an entry before a smaller one. -/
theorem WalRun.UpToDate.jumped (hok : s.Ok size) (h : s.UpToDate) (hlap : ¬ OneLap size s a)
    (hstep : walStep size batchSize s a = some s') : s'.Jumped := by
  obtain ⟨-, key, value, isDelete, timestamp, rfl⟩ | ⟨key, value, isDelete, timestamp, rfl, -⟩ |
    ⟨connects, replies, n, rfl, hout, -, hsome⟩ := walStep_cases hbatch hstep
  · exact absurd trivial hlap
  · exact absurd trivial hlap
  · obtain ⟨hsends, hne⟩ : Sends s connects replies ∧ s.wr.replicatedSeq / size ≠ (s.wr.currentSeq - 1) / size := by
      simpa [OneLap] using hlap
    have hr : s.wr.replicatedSeq < s.appended.length := hok.currentSeq ▸ hsends.1
    obtain ⟨e, rest, hcollect, hseq⟩ := collect_wrapped hsize hok.numbered hok.buffer hr (hok.currentSeq ▸ hne)
    rw [WalRun.pending, hok.currentSeq, hcollect] at hout hsome
    obtain ⟨k, rfl⟩ := Nat.exists_eq_succ_of_ne_zero (hsome hsends (List.cons_ne_nil _ _))
    rw [List.take_succ_cons] at hout
    refine ⟨_, e.sequence, _, hout.sentSeqs, s.wr.replicatedSeq + 1, by omega, hseq, ?_⟩
    rw [h.sentSeqs hok, List.mem_range'_1]
    omega

end

/-! ## Order and gaps -/

section
variable {size batchSize : Nat} (hsize : 0 < size) (hbatch : 0 < batchSize) {isPrimary : Bool} {acts : List WalAct}
  {s : WalRun} (hrun : run (walStep size batchSize) (.start size isPrimary) acts = some s)
include hsize hbatch hrun

theorem ok_of_run : s.Ok size :=
  run_inv (fun _ _ _ => WalRun.Ok.step hsize hbatch) (WalRun.ok_start size isPrimary) hrun

theorem upToDate_of_run (hlap : Along (walStep size batchSize) (OneLap size) (.start size isPrimary) acts) :
    s.UpToDate := by
  have hinv : s.Ok size ∧ s.UpToDate := by
    refine run_inv_along (P := fun s => s.Ok size ∧ s.UpToDate) ?_ ⟨WalRun.ok_start size isPrimary, rfl⟩ hlap hrun
    rintro t a t' ⟨hok, hup⟩ hc hstep
    exact ⟨hok.step hsize hbatch hstep, hup.step hsize hbatch hok hc hstep⟩
  exact hinv.2

/-- **What is sent is in order and without gaps** exactly if no round sends across laps. -/
theorem inOrder_sent_iff : InOrder s.sentSeqs s.wr.replicatedSeq ↔
    Along (walStep size batchSize) (OneLap size) (.start size isPrimary) acts := by
  constructor
  · intro h
    refine along_of_run (P := fun s => s.Ok size ∧ s.UpToDate) (B := WalRun.Jumped) ?_ ?_ ?_
      ⟨WalRun.ok_start size isPrimary, rfl⟩ hrun (not_jumped_of_inOrder h)
    · rintro t a t' ⟨hok, hup⟩ hc hstep
      exact ⟨hok.step hsize hbatch hstep, hup.step hsize hbatch hok hc hstep⟩
    · rintro t a t' ⟨hok, hup⟩ hc hstep
      exact hup.jumped hsize hbatch hok hc hstep
    · intro t a t' hjump hstep
      exact hjump.step hbatch hstep
  · intro hlap
    rw [(upToDate_of_run hsize hbatch hrun hlap).sentSeqs (ok_of_run hsize hbatch hrun)]
    exact inOrder_range' _

/-- Then what the replica accepted is so exactly if it rejected no batch. -/
theorem inOrder_accepted_iff (hlap : Along (walStep size batchSize) (OneLap size) (.start size isPrimary) acts) :
    InOrder s.acceptedSeqs s.wr.replicatedSeq ↔ ∀ b ∈ s.sent, b.2 = true := by
  have hok := ok_of_run hsize hbatch hrun
  have hseqs := (upToDate_of_run hsize hbatch hrun hlap).sentSeqs hok
  constructor
  · intro h b hb
    by_contra hrejected
    -- an entry of the rejected batch would have been accepted in another one
    obtain ⟨e, he⟩ := List.exists_mem_of_ne_nil _ (hok.batches b hb)
    have hsent : e.sequence ∈ s.sentSeqs := List.mem_map_of_mem (List.mem_flatMap.2 ⟨b, hb, he⟩)
    rw [hseqs, List.mem_range'_1] at hsent
    obtain ⟨e', he', heq⟩ := List.mem_map.1 ((h.1 e.sequence).2 (by omega))
    obtain ⟨b', hb', hmem⟩ := List.mem_flatMap.1 he'
    obtain ⟨hb', haccepted⟩ := List.mem_filter.1 hb'
    have hdistinct : s.sentSeqs.Nodup := hseqs ▸ List.nodup_range'
    rw [WalRun.sentSeqs, List.map_flatMap] at hdistinct
    have hsymm : Std.Symm (Function.onFun List.Disjoint fun b : List WALEntry × Bool => b.1.map WALEntry.sequence) :=
      ⟨fun _ _ hd => List.Disjoint.symm hd⟩
    have hdisjoint := (List.nodup_flatMap.1 hdistinct).2.forall hb hb' fun heq => hrejected (heq ▸ haccepted)
    exact hdisjoint (List.mem_map_of_mem he) (heq ▸ List.mem_map_of_mem hmem)
  · intro h
    have hall : s.sent.filter Prod.snd = s.sent := List.filter_eq_self.2 h
    rw [show s.acceptedSeqs = s.sentSeqs by rw [WalRun.acceptedSeqs, hall]; rfl, hseqs]
    exact inOrder_range' _

end

/-- **When the ring delivers in order and without gaps**: the batches reported as sent carry `1, 2, 3, …` up to
`replicatedSeq` exactly if every round that sends something finds all pending entries in one lap of the ring. In such
a run the batches the replica accepted do so exactly if it rejected none. -/
theorem walReplicator_inOrder_iff {isPrimary : Bool} {acts : List WalAct} {s : WalRun}
    (hrun : run (walStep walBufferSize walBatchSize) (.start walBufferSize isPrimary) acts = some s) :
    (InOrder s.sentSeqs s.wr.replicatedSeq ↔
      Along (walStep walBufferSize walBatchSize) (OneLap walBufferSize) (.start walBufferSize isPrimary) acts) ∧
    (Along (walStep walBufferSize walBatchSize) (OneLap walBufferSize) (.start walBufferSize isPrimary) acts →
      (InOrder s.acceptedSeqs s.wr.replicatedSeq ↔ ∀ b ∈ s.sent, b.2 = true)) :=
  ⟨inOrder_sent_iff (by decide) (by decide) hrun, inOrder_accepted_iff (by decide) (by decide) hrun⟩

/-- Two entries and a round that reaches the replica. -/
theorem walReplicator_inOrder_round :
    ∃ s, run (walStep walBufferSize walBatchSize) (.start walBufferSize true)
        [.append [1] [2] false 10, .append [1] [] true 20, .round true fun _ => .accepted] = some s ∧
      InOrder s.sentSeqs s.wr.replicatedSeq := by
  obtain ⟨s, hrun⟩ : ∃ s, run (walStep walBufferSize walBatchSize) (.start walBufferSize true)
      [.append [1] [2] false 10, .append [1] [] true 20, .round true fun _ => .accepted] = some s := ⟨_, rfl⟩
  refine ⟨s, hrun, (walReplicator_inOrder_iff hrun).1.2 ?_⟩
  refine ⟨trivial, fun s₁ h₁ => ⟨trivial, fun s₂ h₂ => ⟨?_, fun _ _ => trivial⟩⟩⟩
  cases h₁
  cases h₂
  exact fun _ => by decide

/-! ## A full ring -/

theorem run_fill (size batchSize : Nat) (hsize : 0 < size) (hbatch : 0 < batchSize) :
    ∀ n, n ≤ 2 ^ 63 → ∃ s, run (walStep size batchSize) (.start size true)
        (List.replicate n (.append [1] [2] false 0)) = some s ∧ s.Ok size ∧ s.wr.isPrimary = true ∧
      s.appended.length = n ∧ s.wr.replicatedSeq = 0 ∧ s.sent = []
  | 0, _ => ⟨_, rfl, WalRun.ok_start size true, rfl, rfl, rfl, rfl⟩
  | n + 1, hn => by
    obtain ⟨s, hrun, hok, hprimary, hlen, hseq, hsent⟩ := run_fill size batchSize hsize hbatch n (by omega)
    have hidx := hok.bufferIdx
    have hstep := @walStep_append size batchSize s hprimary (by omega) [1] [2] false 0
    refine ⟨_, ?_, hok.step hsize hbatch hstep, hprimary, by simp [WalRun.withEntry, hlen], hseq, hsent⟩
    rw [List.replicate_succ']
    exact run_append hrun (run_cons.2 ⟨_, hstep, rfl⟩)

/-- **One entry more than the ring has slots**, and a round in which every call succeeds: the first entry has been
overwritten and is never sent, and `replicatedSeq` is past it. -/
theorem walReplicator_skips_first :
    ∃ s, run (walStep walBufferSize walBatchSize) (.start walBufferSize true)
        (List.replicate 100001 (.append [1] [2] false 0) ++ [.round true fun _ => .accepted]) = some s ∧
      1 ≤ s.wr.replicatedSeq ∧ 1 ∉ s.sentSeqs ∧ ¬ InOrder s.sentSeqs s.wr.replicatedSeq := by
  obtain ⟨s, hrun, hok, -, hlen, hseq, hsent⟩ := run_fill walBufferSize walBatchSize (by decide) (by decide) 100001
    (by decide)
  have hcur := hok.currentSeq
  have hsends : Sends s true fun _ => .accepted := ⟨by omega, by simp, by simp⟩
  obtain ⟨n, hout, -, hsome⟩ := @syncToReplica_spec walBatchSize (by decide) true (fun _ => .accepted) s
  -- what is collected is not empty and has been neither sent nor overwritten
  obtain ⟨e, rest, hcollect, -⟩ := @collect_wrapped walBufferSize (by decide) _ hok.numbered _ hok.buffer
    s.wr.replicatedSeq (by omega) (by rw [hseq, hlen]; decide)
  rw [← hcur, ← WalRun.pending] at hcollect
  have hmem : ∀ x ∈ s.pending, 1 < x.sequence := by
    intro x hx
    have hx := @of_mem_buffer walBufferSize (by decide) _ hok.numbered _ hok.buffer x (List.mem_filter.1 hx).1
    simp only [hlen, walBufferSize] at hx
    omega
  obtain ⟨k, rfl⟩ := Nat.exists_eq_succ_of_ne_zero (hsome hsends (hcollect ▸ List.cons_ne_nil _ _))
  have hfirst : 1 ∉ (s.syncToReplica walBatchSize true fun _ => .accepted).sentSeqs := by
    rw [hout.sentSeqs, WalRun.sentSeqs, hsent]
    intro h
    obtain ⟨x, hx, hone⟩ := List.mem_map.1 h
    exact absurd hone (ne_of_gt (hmem x (List.mem_of_mem_take hx)))
  have hpast : 1 ≤ (s.syncToReplica walBatchSize true fun _ => .accepted).wr.replicatedSeq := by
    obtain ⟨more, connected, hsync, -⟩ := hout
    rw [hsync]
    dsimp only [WalRun.afterSending]
    cases hlast : (s.pending.take (k + 1)).getLast? with
    | none =>
      rw [List.getLast?_eq_none_iff, hcollect] at hlast
      cases hlast
    | some x => exact (hmem x (List.mem_of_mem_take (List.mem_of_getLast? hlast))).le
  exact ⟨_, run_append hrun (run_cons.2 ⟨_, rfl, rfl⟩), hpast, hfirst, fun h => hfirst ((h.1 1).2 ⟨le_rfl, hpast⟩)⟩

end RocksKV.Storage
