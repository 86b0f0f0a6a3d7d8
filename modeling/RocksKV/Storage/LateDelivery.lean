import RocksKV.Storage.Convergence
import RocksKV.Storage.Watermark
/-!
# Batches that arrive late

`syncToReplica` sends one batch at a time and waits for the answer, but a call that has timed out may still be
carried out on the replica (`Replicate` does not look at its context), after the batches sent since.

| here | there |
| --- | --- |
| `DeliveryAct.send`    | `syncToReplica` (`command_log_replicator.go:234-268`) up to the call of `Replicate` in `sendBatch` |
| `DeliveryAct.apply`   | one entry of the loop in `Replicate` (`server.go:1373-1433`), in the handler of one of the calls |
| `DeliveryAct.reply`   | the answer, `Success` or not, and the new watermark (`:284-286`) |
| `DeliveryAct.timeout` | the error branch (`:268-281`); the watermark stays, so the next batch starts where this one did |
| `DeliveryAct.lose`    | a call that never arrives, or whose handler goes no further |

The handlers run concurrently, entry by entry. **Bug**: `Replicate` compares neither the entries' offsets nor the
request's `CommitOffset` with what it has applied, so a late batch puts old values over newer ones
(`late_batch_overwrites`). `late_duplicates_harmless` holds where a late entry meets no newer one on its keys.
-/

namespace RocksKV.Storage

open Lib CommandLogReplicator

/-! ## Entries on the replica -/

/-- The entry has one of the three types, and its batch, if it has one, can be read. -/
def CommandEntry.Readable (e : CommandEntry) : Prop := ∃ c, e.command = some c ∧ c.Decodes

/-- The writes `Replicate` makes for the entry on partition `p`. -/
def CommandEntry.writes (p : UInt32) (e : CommandEntry) : List (Write Bytes Bytes) :=
  match e.command with
  | none => []
  | some c => c.writes p

instance (c : Command) : Decidable c.Decodes :=
  decidable_of_iff (c.cmdType = .fieldBatch → (decodeFieldBatch c.value).toBool = true) (by
    unfold Command.Decodes
    cases decodeFieldBatch c.value <;> simp [Except.toBool])

instance (e : CommandEntry) : Decidable e.Readable :=
  match h : e.command with
  | none => isFalse fun ⟨c, hc, _⟩ => by simp [h] at hc
  | some c => decidable_of_iff c.Decodes ⟨fun hd => ⟨c, h, hd⟩, fun ⟨d, hd, hdec⟩ => by
      rw [h] at hd
      cases hd
      exact hdec⟩

instance (s : Server) (p : UInt32) : Decidable (s.Writable p) :=
  match h : s.pm.partitions.get p with
  | none => isFalse fun ⟨q, hq, _⟩ => by simp [h] at hq
  | some q => decidable_of_iff (q.status = .normal) ⟨fun hs => ⟨q, h, hs⟩, fun ⟨q', hq, hs⟩ => by
      rw [h] at hq
      cases hq
      exact hs⟩

/-- `replicateAll_commands` in terms of entries. -/
theorem replicateAll_readable {p : UInt32} {es : List CommandEntry} {r : Server} (hes : ∀ e ∈ es, e.Readable)
    (hr : r.Writable p) : r.replicateAll p (es.map pbEntry) =
      .ok { r with pm := { r.pm with db := r.db.write (es.flatMap (CommandEntry.writes p)) } } := by
  obtain ⟨cs, hcs, hdec, hwrites⟩ : ∃ cs : List Command, es.map CommandEntry.command = cs.map some ∧
      (∀ c ∈ cs, c.Decodes) ∧ cs.flatMap (Command.writes p) = es.flatMap (CommandEntry.writes p) := by
    clear hr
    induction es with
    | nil => exact ⟨[], rfl, by simp, rfl⟩
    | cons e es ih =>
      obtain ⟨c, hc, hd⟩ := hes e List.mem_cons_self
      obtain ⟨cs, hcs, hdec, hwrites⟩ := ih fun x hx => hes x (List.mem_cons_of_mem _ hx)
      refine ⟨c :: cs, by rw [List.map_cons, List.map_cons, hc, hcs], ?_, ?_⟩
      · intro x hx
        rcases List.mem_cons.1 hx with rfl | hx
        · exact hd
        · exact hdec x hx
      · rw [List.flatMap_cons, List.flatMap_cons, hwrites]
        simp only [CommandEntry.writes, hc]
  rw [replicateAll_commands hcs hdec hr, hwrites]

/-! ## The protocol -/

structure DeliverySys where
  commandLog    : LogRun
  replicatedSeq : UInt64
  /-- What each call's handler has still to apply, in the order of the calls. -/
  calls         : List (List CommandEntry)
  /-- The call `sendBatch` waits for, with its batch. -/
  waiting       : Option (Nat × List CommandEntry)
  replica       : Server
  /-- The highest sequence number successfully applied. -/
  highest       : UInt64

inductive DeliveryAct
  /-- The command log is written to, flushed or synced. -/
  | log (a : LogAct)
  | send
  | apply (i : Nat)
  | reply
  | timeout
  | lose (i : Nat)

def DeliverySys.start (p : UInt32) (fileTime : Nat) (replica : Server) : DeliverySys :=
  { commandLog := LogRun.start p fileTime
    replicatedSeq := 0
    calls := []
    waiting := none
    replica := replica
    highest := 0 }

def deliveryStep (p : UInt32) (s : DeliverySys) : DeliveryAct → Option DeliverySys
  | .log (.crash _ _) => none
  | .log a => (logStep s.commandLog a).map fun l => { s with commandLog := l }
  | .send =>
    if s.waiting.isSome then none
    else if s.commandLog.log.currentSeq ≤ s.replicatedSeq then some s
    else match s.commandLog.log.readFrom (s.replicatedSeq + 1) clBatchSize with
      | [] => some s
      | entry :: entries => some { s with
          calls := s.calls ++ [entry :: entries]
          waiting := some (s.calls.length, entry :: entries) }
  | .apply i =>
    match s.calls[i]? with
    | some (entry :: rest) =>
      if !s.replica.pm.hasPartition p then some { s with calls := s.calls.set i [] }
      else match s.replica.replicateEntry p (pbEntry entry) with
        -- the handler returns `Success: false`
        | .error _ => some { s with calls := s.calls.set i [] }
        | .ok replica => some { s with
            replica := replica
            highest := max s.highest entry.sequence
            calls := s.calls.set i rest }
    | _ => none
  | .reply =>
    match s.waiting with
    | some (i, batch) =>
      if s.calls[i]? = some [] then
        some { s with
          waiting := none
          replicatedSeq := (batch.getLastD (newEntry 0 0 0 [] [])).sequence }
      else none
    | none => none
  | .timeout => if s.waiting.isSome then some { s with waiting := none } else none
  | .lose i => if s.waiting.map Prod.fst = some i then none else some { s with calls := s.calls.set i [] }

/-- No batch is in flight. -/
def DeliverySys.Quiet (s : DeliverySys) : Prop := ∀ rest ∈ s.calls, rest = []

instance (s : DeliverySys) : Decidable s.Quiet := inferInstanceAs (Decidable (∀ rest ∈ s.calls, rest = []))

/-- **Late duplicates are harmless**: with no batch in flight, a replica that began as `r` holds the entries up to
the highest one applied, applied in order. -/
def LateHarmless (p : UInt32) (r : Server) (s : DeliverySys) : Prop :=
  s.Quiet → ∃ r', r.replicateAll p ((s.commandLog.entries.take s.highest.toNat).map pbEntry) = .ok r' ∧
    s.replica.db = r'.db

/-- The replica has the partition and it is writable; and no entry between the one applied and the highest one
applied before writes one of its keys. The log's entries can be read. -/
def Undisturbed (p : UInt32) (s : DeliverySys) : DeliveryAct → Prop
  | .log a => Sane s.commandLog a ∧ match a with
    | .append timestamp _ cmdType key value => (newEntry 0 timestamp cmdType key value).Readable
    | _ => True
  | .apply i => s.replica.Writable p ∧ ∀ e ∈ (s.calls[i]?).bind List.head?, ∀ d ∈ s.commandLog.entries,
      e.sequence < d.sequence → d.sequence ≤ s.highest → ∀ w ∈ e.writes p, ∀ u ∈ d.writes p, w.key ≠ u.key
  | _ => True

instance (p : UInt32) (s : DeliverySys) : ∀ a : DeliveryAct, Decidable (Undisturbed p s a)
  | .log (.append timestamp fileTime cmdType key value) =>
    inferInstanceAs (Decidable (Sane s.commandLog (.append timestamp fileTime cmdType key value) ∧
      (newEntry 0 timestamp cmdType key value).Readable))
  | .log (.flush n) => inferInstanceAs (Decidable (Sane s.commandLog (.flush n) ∧ True))
  | .log .sync => inferInstanceAs (Decidable (Sane s.commandLog .sync ∧ True))
  | .log (.crash keep fileTime) => inferInstanceAs (Decidable (Sane s.commandLog (.crash keep fileTime) ∧ True))
  | .apply i => inferInstanceAs (Decidable (s.replica.Writable p ∧ ∀ e ∈ (s.calls[i]?).bind List.head?,
      ∀ d ∈ s.commandLog.entries, e.sequence < d.sequence → d.sequence ≤ s.highest →
        ∀ w ∈ e.writes p, ∀ u ∈ d.writes p, w.key ≠ u.key))
  | .send => inferInstanceAs (Decidable True)
  | .reply => inferInstanceAs (Decidable True)
  | .timeout => inferInstanceAs (Decidable True)
  | .lose _ => inferInstanceAs (Decidable True)

/-! ## Stretches of the log -/

/-- `rest` ends with entry number `b` of the log, and starts no later than after the first `n`. -/
def Pending (es : List CommandEntry) (n : Nat) (rest : List CommandEntry) (b : Nat) : Prop :=
  b ≤ es.length ∧ ∃ a ≤ n, rest = (es.take b).drop a

theorem Pending.concat {es rest : List CommandEntry} {n b : Nat} (h : Pending es n rest b) (e : CommandEntry) :
    Pending (es ++ [e]) n rest b := by
  obtain ⟨hb, a, ha, rfl⟩ := h
  refine ⟨by simp; omega, a, ha, ?_⟩
  rw [List.take_append_of_le_length hb]

theorem Pending.mono {es rest : List CommandEntry} {n m b : Nat} (h : Pending es n rest b) (hnm : n ≤ m) :
    Pending es m rest b := by
  obtain ⟨hb, a, ha, hrest⟩ := h
  exact ⟨hb, a, ha.trans hnm, hrest⟩

theorem pending_nil (es : List CommandEntry) (n : Nat) : Pending es n [] 0 := ⟨Nat.zero_le _, 0, Nat.zero_le _, rfl⟩

/-- A handler that is through has reached the end of its batch. -/
theorem Pending.done {es : List CommandEntry} {n b : Nat} (h : Pending es n [] b) : b ≤ n := by
  obtain ⟨hb, a, ha, hnil⟩ := h
  have hlen := congrArg List.length hnil
  simp only [List.length_nil, List.length_drop, List.length_take] at hlen
  omega

/-- The next entry, its number, and what comes after it. -/
theorem Pending.next {es rest : List CommandEntry} {n b : Nat} {e : CommandEntry} (hnum : Numbered es)
    (h : Pending es n (e :: rest) b) :
    ∃ a ≤ n, e.sequence.toNat = a + 1 ∧ a < es.length ∧ es[a]? = some e ∧ Pending es (a + 1) rest b := by
  obtain ⟨hb, a, ha, hrest⟩ := h
  have hlt : a < (es.take b).length := by
    by_contra hge
    rw [List.drop_eq_nil_of_le (Nat.le_of_not_lt hge)] at hrest
    cases hrest
  rw [List.drop_eq_getElem_cons hlt, List.cons.injEq] at hrest
  obtain ⟨rfl, rfl⟩ := hrest
  rw [List.length_take] at hlt
  have hin : a < es.length := by omega
  have hget : (es.take b)[a] = es[a] := List.getElem_take
  refine ⟨a, ha, ?_, hin, ?_, hb, a + 1, le_rfl, rfl⟩
  · rw [hget]
    exact hnum.sequence_getElem hin
  · rw [hget, List.getElem?_eq_getElem hin]

section
variable {p : UInt32} {es : List CommandEntry} {e : CommandEntry} {a n : Nat}

/-- The next entry of the log takes the contents one step on. -/
theorem write_next (db : RocksDB) (h : es[n]? = some e) :
    (db.write ((es.take n).flatMap (CommandEntry.writes p))).write (e.writes p) =
      db.write ((es.take (n + 1)).flatMap (CommandEntry.writes p)) := by
  rw [List.take_add_one, h, Option.toList_some, List.flatMap_append, write_append, List.flatMap_singleton]

/-- A late entry changes nothing where the entries after it write none of its keys. -/
theorem write_late (db : RocksDB) (h : es[a]? = some e) (han : a < n)
    (hd : ∀ d ∈ (es.take n).drop (a + 1), ∀ w ∈ e.writes p, ∀ u ∈ d.writes p, w.key ≠ u.key) :
    (db.write ((es.take n).flatMap (CommandEntry.writes p))).write (e.writes p) =
      db.write ((es.take n).flatMap (CommandEntry.writes p)) := by
  have hsplit : es.take n = es.take a ++ e :: (es.take n).drop (a + 1) := by
    have hget : (es.take n)[a]? = some e := by rw [List.getElem?_take_of_lt han, h]
    obtain ⟨hlt, rfl⟩ := List.getElem?_eq_some_iff.1 hget
    conv_lhs => rw [← List.take_append_drop a (es.take n), List.drop_eq_getElem_cons hlt]
    rw [List.take_take, min_eq_left han.le]
  rw [hsplit, List.flatMap_append, List.flatMap_cons, write_append db]
  refine write_again _ fun w hw u hu => ?_
  obtain ⟨d, hdm, hu⟩ := List.mem_flatMap.1 hu
  exact hd d hdm w hw u hu

end

/-! ## What every step keeps -/

structure DeliveryInv (p : UInt32) (r : Server) (s : DeliverySys) : Prop where
  log       : LogInv s.commandLog
  readable  : ∀ e ∈ s.commandLog.entries, e.Readable
  bound     : s.highest.toNat ≤ s.commandLog.entries.length
  watermark : s.replicatedSeq ≤ s.highest
  calls     : ∀ rest ∈ s.calls, ∃ b, Pending s.commandLog.entries s.highest.toNat rest b
  /-- The handler `sendBatch` waits for has its way to go to the end of the batch. -/
  waiting   : ∀ i batch, s.waiting = some (i, batch) → ∃ rest, s.calls[i]? = some rest ∧
    Pending s.commandLog.entries s.highest.toNat rest (batch.getLastD (newEntry 0 0 0 [] [])).sequence.toNat
  replica   : s.replica = { r with pm := { r.pm with
    db := r.db.write ((s.commandLog.entries.take s.highest.toNat).flatMap (CommandEntry.writes p)) } }

theorem deliveryInv_start (p : UInt32) (fileTime : Nat) (r : Server) :
    DeliveryInv p r (.start p fileTime r) where
  log       := logInv_start p fileTime
  readable  := by simp [DeliverySys.start, LogRun.start]
  bound     := by simp [DeliverySys.start]
  watermark := UInt64.le_refl _
  calls     := by simp [DeliverySys.start]
  waiting   := by simp [DeliverySys.start]
  replica   := rfl

section
variable {p : UInt32} {r : Server} {s s' : DeliverySys}

theorem DeliveryInv.logStep (h : DeliveryInv p r s) {a : LogAct} {l : LogRun} (hu : Undisturbed p s (.log a))
    (hne : ∀ keep fileTime, a ≠ .crash keep fileTime) (hst : logStep s.commandLog a = some l) :
    DeliveryInv p r { s with commandLog := l } := by
  have hlog := logInv_step h.log hu.1 hst
  rcases logStep_entries h.log hu.1 hne hst with hent | ⟨e, hent, -⟩
  · obtain ⟨-, hread, hbound, hmark, hcalls, hwait, hrep⟩ := h
    rw [← hent] at hread hbound hcalls hwait hrep
    exact ⟨hlog, hread, hbound, hmark, hcalls, hwait, hrep⟩
  · have hnew : e.Readable := by
      cases a with
      | append timestamp fileTime cmdType key value =>
        simp only [Storage.logStep] at hst
        split at hst
        · cases hst
        · rename_i log seq ha
          cases hst
          obtain rfl := List.singleton_inj.1 (List.append_cancel_left hent)
          exact hu.2
      | flush n =>
        cases hst
        simp at hent
      | sync =>
        cases hst
        simp at hent
      | crash keep fileTime => exact absurd rfl (hne keep fileTime)
    refine ⟨hlog, ?_, ?_, h.watermark, ?_, ?_, ?_⟩ <;> simp only [hent]
    · intro x hx
      rcases List.mem_append.1 hx with hx | hx
      · exact h.readable x hx
      · obtain rfl := List.mem_singleton.1 hx
        exact hnew
    · have := h.bound
      simp only [List.length_append, List.length_singleton]
      omega
    · intro rest hrest
      obtain ⟨b, hb⟩ := h.calls rest hrest
      exact ⟨b, hb.concat e⟩
    · intro i batch hw
      obtain ⟨rest, hrest, hpend⟩ := h.waiting i batch hw
      exact ⟨rest, hrest, hpend.concat e⟩
    · rw [List.take_append_of_le_length h.bound]
      exact h.replica

theorem DeliveryInv.send (h : DeliveryInv p r s) (hst : deliveryStep p s .send = some s') : DeliveryInv p r s' := by
  simp only [deliveryStep] at hst
  split_ifs at hst with hw hseq
  · cases hst
    exact h
  · rw [UInt64.not_le] at hseq
    obtain ⟨b, hb, hread⟩ := readFrom_succ h.log hseq clBatchSize
    rw [hread] at hst
    split at hst
    · cases hst
      exact h
    · rename_i entry entries hbatch
      cases hst
      have hmark := UInt64.le_iff_toNat_le.1 h.watermark
      have hpend : Pending s.commandLog.entries s.highest.toNat (entry :: entries) b :=
        ⟨hb, s.replicatedSeq.toNat, hmark, hbatch.symm⟩
      refine ⟨h.log, h.readable, h.bound, h.watermark, ?_, ?_, h.replica⟩
      · intro rest hrest
        rcases List.mem_append.1 hrest with hrest | hrest
        · exact h.calls rest hrest
        · obtain rfl := List.mem_singleton.1 hrest
          exact ⟨b, hpend⟩
      · intro i batch hi
        obtain ⟨rfl, rfl⟩ := Prod.mk.inj (Option.some.inj hi)
        refine ⟨entry :: entries, by simp, ?_⟩
        rw [last_stretch h.log.numbered hb hbatch]
        exact hpend

/-- A call has moved on or been given up; the others wait where they did. -/
theorem DeliveryInv.setCall (h : DeliveryInv p r s) {i b n : Nat} {rest : List CommandEntry}
    (hn : s.highest.toNat ≤ n) (hpend : Pending s.commandLog.entries n rest b) :
    ∀ x ∈ s.calls.set i rest, ∃ b, Pending s.commandLog.entries n x b := by
  intro x hx
  rcases List.mem_or_eq_of_mem_set hx with hx | rfl
  · obtain ⟨b, hb⟩ := h.calls x hx
    exact ⟨b, hb.mono hn⟩
  · exact ⟨b, hpend⟩

theorem DeliveryInv.apply (h : DeliveryInv p r s) {i : Nat} (hu : Undisturbed p s (.apply i))
    (hst : deliveryStep p s (.apply i) = some s') : DeliveryInv p r s' := by
  obtain ⟨hwr, hlate⟩ := hu
  simp only [deliveryStep] at hst
  split at hst
  case h_2 => cases hst
  case h_1 entry rest hcall =>
  obtain ⟨b, hpend⟩ := h.calls _ (List.mem_of_getElem? hcall)
  obtain ⟨a, ha, hseq, hlt, hget, -⟩ := hpend.next h.log.numbered
  obtain ⟨c, hc, hdec⟩ := h.readable entry (List.mem_of_getElem? hget)
  rw [hwr.hasPartition, replicateEntry_command hwr hc hdec] at hst
  cases hst
  have hw : c.writes p = entry.writes p := by simp only [CommandEntry.writes, hc]
  have hmax : (max s.highest entry.sequence).toNat = max s.highest.toNat (a + 1) := by
    rcases UInt64.le_total s.highest entry.sequence with hle | hle
    · rw [max_eq_right hle, hseq, max_eq_right (by have := UInt64.le_iff_toNat_le.1 hle; omega)]
    · rw [max_eq_left hle, max_eq_left (by have := UInt64.le_iff_toNat_le.1 hle; omega)]
  refine ⟨h.log, h.readable, ?_, UInt64.le_trans h.watermark (le_max_left _ _), ?_, ?_, ?_⟩ <;> simp only [hmax]
  · have := h.bound
    omega
  · obtain ⟨a', ha', hseq', -, -, hrest⟩ := hpend.next h.log.numbered
    exact h.setCall (le_max_left _ _) (hrest.mono (by omega))
  · intro j batch hj
    obtain ⟨rest', hrest', hpend'⟩ := h.waiting j batch hj
    by_cases hij : j = i
    · subst hij
      obtain rfl : entry :: rest = rest' := by rw [hcall] at hrest'; exact Option.some.inj hrest'
      obtain ⟨a', ha', hseq', -, -, hrest⟩ := hpend'.next h.log.numbered
      refine ⟨rest, ?_, hrest.mono (by omega)⟩
      rw [List.getElem?_set_self (List.getElem?_eq_some_iff.1 hcall).1]
    · exact ⟨rest', by rw [List.getElem?_set_ne (Ne.symm hij), hrest'], hpend'.mono (le_max_left _ _)⟩
  · rw [hw, Server.db, h.replica]
    have hdb : (r.db.write ((s.commandLog.entries.take s.highest.toNat).flatMap (CommandEntry.writes p))).write
        (entry.writes p) = r.db.write ((s.commandLog.entries.take (max s.highest.toNat (a + 1))).flatMap
          (CommandEntry.writes p)) := by
      rcases ha.lt_or_eq with hlt' | rfl
      · -- a late entry: those after it, up to the highest applied, write none of its keys
        rw [max_eq_left (by omega)]
        refine write_late _ hget hlt' fun d hd => ?_
        obtain ⟨j, hj, rfl⟩ := List.getElem_of_mem hd
        simp only [List.length_drop, List.length_take] at hj
        have hjseq := h.log.numbered.sequence_getElem (show a + 1 + j < s.commandLog.entries.length by omega)
        simp only [List.getElem_drop, List.getElem_take]
        refine hlate entry (by rw [hcall]; rfl) _ (List.getElem_mem _) ?_ ?_
        · rw [UInt64.lt_iff_toNat_lt]
          omega
        · rw [UInt64.le_iff_toNat_le]
          omega
      · rw [max_eq_right (by omega)]
        exact write_next _ hget
    rw [hdb]

theorem DeliveryInv.reply (h : DeliveryInv p r s) (hst : deliveryStep p s .reply = some s') : DeliveryInv p r s' := by
  simp only [deliveryStep] at hst
  split at hst
  · rename_i i batch hw
    split_ifs at hst with hdone
    cases hst
    obtain ⟨rest, hrest, hpend⟩ := h.waiting i batch hw
    obtain rfl : rest = [] := by rw [hdone] at hrest; exact (Option.some.inj hrest).symm
    exact ⟨h.log, h.readable, h.bound, UInt64.le_iff_toNat_le.2 hpend.done, h.calls, by simp, h.replica⟩
  · cases hst

theorem DeliveryInv.lose (h : DeliveryInv p r s) {i : Nat} (hst : deliveryStep p s (.lose i) = some s') :
    DeliveryInv p r s' := by
  simp only [deliveryStep] at hst
  split_ifs at hst with hw
  cases hst
  refine ⟨h.log, h.readable, h.bound, h.watermark, h.setCall le_rfl (pending_nil _ _), ?_, h.replica⟩
  intro j batch hj
  obtain ⟨rest, hrest, hpend⟩ := h.waiting j batch hj
  have hij : i ≠ j := by
    rintro rfl
    exact hw (by rw [hj]; rfl)
  exact ⟨rest, by rw [List.getElem?_set_ne hij, hrest], hpend⟩

theorem deliveryInv_step {a : DeliveryAct} (h : DeliveryInv p r s) (hu : Undisturbed p s a)
    (hst : deliveryStep p s a = some s') : DeliveryInv p r s' := by
  cases a with
  | log a =>
    have hne : ∀ keep fileTime, a ≠ .crash keep fileTime := by
      rintro keep fileTime rfl
      cases hst
    have hmap : (logStep s.commandLog a).map (fun l => { s with commandLog := l }) = some s' := by
      cases a with
      | crash keep fileTime => exact absurd rfl (hne keep fileTime)
      | _ => exact hst
    obtain ⟨l, hl, rfl⟩ := Option.map_eq_some_iff.1 hmap
    exact h.logStep hu hne hl
  | send => exact h.send hst
  | apply i => exact h.apply hu hst
  | reply => exact h.reply hst
  | timeout =>
    simp only [deliveryStep] at hst
    split_ifs at hst
    cases hst
    exact ⟨h.log, h.readable, h.bound, h.watermark, h.calls, by simp, h.replica⟩
  | lose i => exact h.lose hst

/-- **Late duplicates are harmless** in every run whose late entries meet no newer entry on their keys. -/
theorem late_duplicates_harmless {fileTime : Nat} (hr : r.Writable p) {as : List DeliveryAct}
    (hu : Along (deliveryStep p) (Undisturbed p) (.start p fileTime r) as)
    (hrun : run (deliveryStep p) (.start p fileTime r) as = some s) : LateHarmless p r s := by
  have h := run_inv_along (fun _ _ _ hi hc hst => deliveryInv_step hi hc hst) (deliveryInv_start p fileTime r) hu hrun
  intro _
  refine ⟨_, replicateAll_readable (fun e he => h.readable e (List.mem_of_mem_take he)) hr, ?_⟩
  rw [h.replica]

end

/-- Two puts; the batch with the first times out, then the batch with both is applied and answered, and only then
the first batch. -/
def lateBatch (k l : Bytes) : List DeliveryAct :=
  [.log (.append 0 2 1 k [1]), .log .sync, .send, .timeout, .log (.append 0 2 1 l [2]), .log .sync, .send, .apply 1,
    .apply 1, .reply, .apply 0]

theorem late_batch_on_two_keys : ∃ s, run (deliveryStep 7) (.start 7 1 primaryOfSeven) (lateBatch [5] [6]) = some s ∧
    s.Quiet ∧ LateHarmless 7 primaryOfSeven s := by
  have hrun : ∃ s, run (deliveryStep 7) (.start 7 1 primaryOfSeven) (lateBatch [5] [6]) = some s ∧ s.Quiet :=
    exists_run (by decide +kernel)
  obtain ⟨s, hs, hquiet⟩ := hrun
  exact ⟨s, hs, hquiet, late_duplicates_harmless ⟨_, rfl, rfl⟩ (by decide +kernel) hs⟩

/-- **Bug**: on one key the first value comes back over the second. -/
theorem late_batch_overwrites : ∃ s, run (deliveryStep 7) (.start 7 1 primaryOfSeven) (lateBatch [5] [5]) = some s ∧
    s.Quiet ∧ s.highest = 2 ∧ ¬ LateHarmless 7 primaryOfSeven s := by
  have hrun : ∃ s, run (deliveryStep 7) (.start 7 1 primaryOfSeven) (lateBatch [5] [5]) = some s ∧
      s.Quiet ∧ s.highest = 2 ∧
        ∀ r' ∈ (primaryOfSeven.replicateAll 7 ((s.commandLog.entries.take s.highest.toNat).map pbEntry)).toOption,
          s.replica.db.get (makePartitionKey 7 [5]) ≠ r'.db.get (makePartitionKey 7 [5]) :=
    exists_run (by decide +kernel)
  obtain ⟨s, hs, hquiet, hhigh, hne⟩ := hrun
  refine ⟨s, hs, hquiet, hhigh, fun h => ?_⟩
  obtain ⟨r', hall, hdb⟩ := h hquiet
  exact hne r' (by rw [hall]; rfl) (by rw [hdb])

end RocksKV.Storage
