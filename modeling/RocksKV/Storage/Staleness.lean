import RocksKV.Lib.LogPrefix
import RocksKV.Storage.LateDelivery
/-!
# How far a replica is behind (`pkg/storage/command_log_replicator.go:234-345`, `server.go:1373-1433`)

A compute server reads from the replica when the primary does not answer. The replica's store is the work of all the
`Replicate` calls that have reached it, in whatever order their handlers took the entries (`Storage.LateDelivery` has the
protocol). Seen key by key:

* `replica_values_logged`: every key has a value that it had in the primary's log, after some prefix of it. Nothing is
  mixed or made up by batches that are cut off, sent again, or late.
* `replica_not_behind`: the prefix has all entries up to the watermark, as long as no handler applies an entry that is
  older than those the call `sendBatch` waits for has got to. A call that has timed out and goes on late does that.
-/

namespace RocksKV.Storage

open Lib CommandLogReplicator

/-- The log's files are named in order, and its entries can be read. -/
def LogReadable (s : DeliverySys) : DeliveryAct → Prop
  | .log a => Sane s.commandLog a ∧ match a with
    | .append timestamp _ cmdType key value => (newEntry 0 timestamp cmdType key value).Readable
    | _ => True
  | _ => True

instance (s : DeliverySys) : ∀ a : DeliveryAct, Decidable (LogReadable s a)
  | .log (.append timestamp fileTime cmdType key value) =>
    inferInstanceAs (Decidable (Sane s.commandLog (.append timestamp fileTime cmdType key value) ∧
      (newEntry 0 timestamp cmdType key value).Readable))
  | .log (.flush n) => inferInstanceAs (Decidable (Sane s.commandLog (.flush n) ∧ True))
  | .log .sync => inferInstanceAs (Decidable (Sane s.commandLog .sync ∧ True))
  | .log (.crash keep fileTime) => inferInstanceAs (Decidable (Sane s.commandLog (.crash keep fileTime) ∧ True))
  | .send | .apply _ | .reply | .timeout | .lose _ => isTrue trivial

/-! ## Stretches of the log -/

/-- The entries after the first `a`, up to entry number `b`. -/
structure Stretch (es : List CommandEntry) (a b : Nat) (rest : List CommandEntry) : Prop where
  le     : a ≤ b
  bound  : b ≤ es.length
  eq     : rest = (es.take b).drop a

namespace Stretch

variable {es rest : List CommandEntry} {e : CommandEntry} {a b : Nat}

theorem concat (h : Stretch es a b rest) : Stretch (es ++ [e]) a b rest where
  le := h.le
  bound := by have := h.bound; simp only [List.length_append]; omega
  eq := by rw [List.take_append_of_le_length h.bound, h.eq]

theorem length (h : Stretch es a b rest) : rest.length = b - a := by
  have := h.bound
  rw [h.eq, List.length_drop, List.length_take]
  omega

theorem next (h : Stretch es a b (e :: rest)) : es[a]? = some e ∧ Stretch es (a + 1) b rest := by
  have hlen := h.length
  have hbound := h.bound
  have hlt : a < (es.take b).length := by
    rw [List.length_cons] at hlen
    rw [List.length_take]
    omega
  have heq := h.eq
  rw [List.drop_eq_getElem_cons hlt, List.cons.injEq] at heq
  refine ⟨?_, by rw [List.length_cons] at hlen; omega, hbound, heq.2⟩
  rw [heq.1, List.getElem_take, List.getElem?_eq_getElem]

/-- The one that is through is at the end. -/
theorem done (h : Stretch es a b []) : a = b := by
  have hlen := h.length
  have hle := h.le
  rw [List.length_nil] at hlen
  omega

end Stretch

/-- What each call has still to apply is a stretch of the log; the one `sendBatch` waits for is past the watermark. -/
structure SendInv (p : UInt32) (s : DeliverySys) : Prop where
  log      : LogInv s.commandLog
  readable : ∀ e ∈ s.commandLog.entries, e.Readable
  writable : s.replica.Writable p
  calls    : ∀ rest ∈ s.calls, ∃ a b, Stretch s.commandLog.entries a b rest
  waiting  : ∀ i batch, s.waiting = some (i, batch) → ∃ rest a, s.calls[i]? = some rest ∧
    Stretch s.commandLog.entries a (batch.getLastD (newEntry 0 0 0 [] [])).sequence.toNat rest ∧
      s.replicatedSeq.toNat ≤ a

/-- What a step does to the log, the calls and the replica. -/
inductive Delivers (p : UInt32) (s : DeliverySys) : DeliveryAct → DeliverySys → Prop
  | log {a : LogAct} {l : LogRun} (hinv : LogInv l) (hent : l.entries = s.commandLog.entries ∨
      ∃ e, e.Readable ∧ l.entries = s.commandLog.entries ++ [e]) : Delivers p s (.log a) { s with commandLog := l }
  /-- There is nothing to send. -/
  | stay : Delivers p s .send s
  | send {batch : List CommandEntry} (hwait : s.waiting = none)
    (hbatch : Stretch s.commandLog.entries s.replicatedSeq.toNat
      (batch.getLastD (newEntry 0 0 0 [] [])).sequence.toNat batch) :
    Delivers p s .send { s with calls := s.calls ++ [batch], waiting := some (s.calls.length, batch) }
  | apply {i : Nat} {e : CommandEntry} {rest : List CommandEntry} (hcall : s.calls[i]? = some (e :: rest)) :
    Delivers p s (.apply i)
      { s with
        replica := { s.replica with pm := { s.replica.pm with db := s.replica.db.write (e.writes p) } }
        highest := max s.highest e.sequence
        calls := s.calls.set i rest }
  | reply {i : Nat} {batch : List CommandEntry} (hwait : s.waiting = some (i, batch)) (hdone : s.calls[i]? = some []) :
    Delivers p s .reply
      { s with waiting := none, replicatedSeq := (batch.getLastD (newEntry 0 0 0 [] [])).sequence }
  | timeout : Delivers p s .timeout { s with waiting := none }
  | lose {i : Nat} (hi : s.waiting.map Prod.fst ≠ some i) :
    Delivers p s (.lose i) { s with calls := s.calls.set i [] }

/-- An append puts one entry at the end of the log; the other operations leave the entries alone. -/
theorem readable_logStep {s : DeliverySys} {a : LogAct} {l : LogRun} (h : LogInv s.commandLog)
    (hc : LogReadable s (.log a)) (hne : ∀ keep fileTime, a ≠ .crash keep fileTime)
    (hst : logStep s.commandLog a = some l) : l.entries = s.commandLog.entries ∨
      ∃ e, e.Readable ∧ l.entries = s.commandLog.entries ++ [e] := by
  rcases logStep_entries h hc.1 hne hst with hsame | ⟨e, hent, -⟩
  · exact .inl hsame
  · cases a with
    | append timestamp fileTime cmdType key value =>
      simp only [logStep] at hst
      split at hst
      · cases hst
      · rename_i log seq ha
        cases hst
        have hnew : (newEntry seq timestamp cmdType key value).Readable := hc.2
        exact .inr ⟨_, hnew, rfl⟩
    | flush n =>
      cases hst
      simp at hent
    | sync =>
      cases hst
      simp at hent
    | crash keep fileTime => exact absurd rfl (hne keep fileTime)

theorem deliveryStep_cases {p : UInt32} {s s' : DeliverySys} {a : DeliveryAct} (h : SendInv p s)
    (hc : LogReadable s a) (hst : deliveryStep p s a = some s') : Delivers p s a s' := by
  cases a with
  | log a =>
    have hne : ∀ keep fileTime, a ≠ .crash keep fileTime := by
      rintro keep fileTime rfl
      cases hst
    have hmap : (logStep s.commandLog a).map (fun l => { s with commandLog := l }) = some s' := by
      cases a with
      | crash keep fileTime => exact absurd rfl (hne keep fileTime)
      | _ => exact hst
    obtain ⟨l, hl, rfl⟩ := Option.map_eq_some_iff.1 hmap
    exact .log (logInv_step h.log hc.1 hl) (readable_logStep h.log hc hne hl)
  | send =>
    simp only [deliveryStep] at hst
    split_ifs at hst with hwait hseq
    · cases hst
      exact .stay
    · rw [UInt64.not_le] at hseq
      obtain ⟨b, hb, hread⟩ := readFrom_succ h.log hseq clBatchSize
      rw [hread] at hst
      split at hst
      · cases hst
        exact .stay
      · rename_i entry entries hbatch
        cases hst
        have hlast := last_stretch h.log.numbered hb hbatch (newEntry 0 0 0 [] [])
        have hlen := congrArg List.length hbatch
        simp only [List.length_drop, List.length_take, List.length_cons] at hlen
        refine .send (by simpa using hwait) ⟨?_, ?_, ?_⟩ <;> rw [hlast]
        · omega
        · exact hb
        · exact hbatch.symm
  | apply i =>
    simp only [deliveryStep] at hst
    split at hst
    case h_2 => cases hst
    case h_1 entry rest hcall =>
    obtain ⟨a, b, hstretch⟩ := h.calls _ (List.mem_of_getElem? hcall)
    obtain ⟨c, hcmd, hdec⟩ := h.readable entry (List.mem_of_getElem? hstretch.next.1)
    have hwrites : c.writes p = entry.writes p := by simp only [CommandEntry.writes, hcmd]
    rw [h.writable.hasPartition, replicateEntry_command h.writable hcmd hdec, hwrites] at hst
    cases hst
    exact .apply hcall
  | reply =>
    simp only [deliveryStep] at hst
    split at hst
    · rename_i i batch hwait
      split_ifs at hst with hdone
      cases hst
      exact .reply hwait hdone
    · cases hst
  | timeout =>
    simp only [deliveryStep] at hst
    split_ifs at hst
    cases hst
    exact .timeout
  | lose i =>
    simp only [deliveryStep] at hst
    split_ifs at hst with hi
    cases hst
    exact .lose hi

theorem sendInv_start {p : UInt32} {r : Server} (hr : r.Writable p) (fileTime : Nat) :
    SendInv p (.start p fileTime r) where
  log      := logInv_start p fileTime
  readable := by simp [DeliverySys.start, LogRun.start]
  writable := hr
  calls    := by simp [DeliverySys.start]
  waiting  := by simp [DeliverySys.start]

theorem sendInv_step {p : UInt32} {s s' : DeliverySys} {a : DeliveryAct} (h : SendInv p s) (hstep : Delivers p s a s') :
    SendInv p s' := by
  cases hstep with
  | log hinv hent =>
    rcases hent with hsame | ⟨e, he, hent⟩
    · refine ⟨hinv, ?_, h.writable, ?_, ?_⟩ <;> rw [hsame]
      · exact h.readable
      · exact h.calls
      · exact h.waiting
    · refine ⟨hinv, ?_, h.writable, ?_, ?_⟩ <;> rw [hent]
      · intro x hx
        rcases List.mem_append.1 hx with hold | hnew
        · exact h.readable x hold
        · rwa [List.mem_singleton.1 hnew]
      · intro rest hrest
        obtain ⟨a, b, hstretch⟩ := h.calls rest hrest
        exact ⟨a, b, hstretch.concat⟩
      · intro i batch hwait
        obtain ⟨rest, a, hrest, hstretch, hmark⟩ := h.waiting i batch hwait
        exact ⟨rest, a, hrest, hstretch.concat, hmark⟩
  | stay => exact h
  | @send batch hwait hbatch =>
    refine ⟨h.log, h.readable, h.writable, fun rest hrest => ?_, fun i b hi => ?_⟩
    · rcases List.mem_append.1 hrest with hold | hnew
      · exact h.calls rest hold
      · rw [List.mem_singleton.1 hnew]
        exact ⟨_, _, hbatch⟩
    · obtain ⟨rfl, rfl⟩ := Prod.mk.inj (Option.some.inj hi)
      exact ⟨batch, _, by simp, hbatch, le_rfl⟩
  | @apply i e rest hcall =>
    refine ⟨h.log, h.readable, h.writable, fun x hx => ?_, fun j batch hj => ?_⟩
    · rcases List.mem_or_eq_of_mem_set hx with hold | rfl
      · exact h.calls x hold
      · obtain ⟨a, b, hstretch⟩ := h.calls _ (List.mem_of_getElem? hcall)
        exact ⟨a + 1, b, hstretch.next.2⟩
    · obtain ⟨x, a, hx, hstretch, hmark⟩ := h.waiting j batch hj
      by_cases hij : i = j
      · subst hij
        rw [hcall] at hx
        cases hx
        refine ⟨rest, a + 1, ?_, hstretch.next.2, hmark.trans (Nat.le_succ a)⟩
        rw [List.getElem?_set_self (List.getElem?_eq_some_iff.1 hcall).1]
      · exact ⟨x, a, by rw [List.getElem?_set_ne hij, hx], hstretch, hmark⟩
  | reply hwait hdone => exact ⟨h.log, h.readable, h.writable, h.calls, fun i batch hi => by cases hi⟩
  | timeout => exact ⟨h.log, h.readable, h.writable, h.calls, fun i batch hi => by cases hi⟩
  | @lose i hi =>
    refine ⟨h.log, h.readable, h.writable, fun x hx => ?_, fun j batch hj => ?_⟩
    · rcases List.mem_or_eq_of_mem_set hx with hold | rfl
      · exact h.calls x hold
      · exact ⟨0, 0, le_rfl, Nat.zero_le _, rfl⟩
    · obtain ⟨x, a, hx, hstretch, hmark⟩ := h.waiting j batch hj
      have hij : i ≠ j := by
        rintro rfl
        exact hi (by rw [hj]; rfl)
      exact ⟨x, a, by rw [List.getElem?_set_ne hij, hx], hstretch, hmark⟩

/-! ## Every value is from the log -/

/-- The replica began with the contents `db`; each of its keys has the value of a prefix of the log. -/
def Logged (p : UInt32) (db : RocksDB) (lo : Nat) (s : DeliverySys) : Prop :=
  FromPrefix (CommandEntry.writes p) db s.commandLog.entries lo s.replica.db

theorem logged_log {p : UInt32} {db : RocksDB} {lo : Nat} {s : DeliverySys} (h : Logged p db lo s) {l : LogRun}
    (hent : l.entries = s.commandLog.entries ∨ ∃ e, e.Readable ∧ l.entries = s.commandLog.entries ++ [e]) :
    Logged p db lo { s with commandLog := l } := by
  unfold Logged at h ⊢
  rcases hent with hsame | ⟨e, -, hent⟩
  · rwa [hsame]
  · rw [hent]
    exact h.concat

/-- The entries up to this number are in, in their order: those before the one that the call `sendBatch` waits for is to
apply next, or those up to the watermark. -/
def DeliverySys.inOrder (s : DeliverySys) : Nat :=
  match s.waiting with
  | some (i, batch) => (batch.getLastD (newEntry 0 0 0 [] [])).sequence.toNat - ((s.calls[i]?).getD []).length
  | none => s.replicatedSeq.toNat

/-- No handler applies an entry that is in already. -/
def NotBehind (s : DeliverySys) : DeliveryAct → Prop
  | .apply i => ∀ e ∈ (s.calls[i]?).bind List.head?, s.inOrder < e.sequence.toNat
  | _ => True

instance (s : DeliverySys) : ∀ a : DeliveryAct, Decidable (NotBehind s a)
  | .apply i => inferInstanceAs (Decidable (∀ e ∈ (s.calls[i]?).bind List.head?, s.inOrder < e.sequence.toNat))
  | .log _ | .send | .reply | .timeout | .lose _ => isTrue trivial

theorem SendInv.inOrder_waiting {p : UInt32} {s : DeliverySys} (h : SendInv p s) {i : Nat} {batch : List CommandEntry}
    (hwait : s.waiting = some (i, batch)) {rest : List CommandEntry} (hrest : s.calls[i]? = some rest) :
    Stretch s.commandLog.entries s.inOrder (batch.getLastD (newEntry 0 0 0 [] [])).sequence.toNat rest ∧
      s.replicatedSeq.toNat ≤ s.inOrder := by
  obtain ⟨x, a, hx, hstretch, hmark⟩ := h.waiting i batch hwait
  rw [hrest] at hx
  cases hx
  have heq : s.inOrder = a := by
    have hlen := hstretch.length
    have hle := hstretch.le
    simp only [DeliverySys.inOrder, hwait, hrest, Option.getD_some]
    omega
  rw [heq]
  exact ⟨hstretch, hmark⟩

theorem SendInv.mark_le_inOrder {p : UInt32} {s : DeliverySys} (h : SendInv p s) : s.replicatedSeq.toNat ≤ s.inOrder := by
  cases hwait : s.waiting with
  | none => exact Nat.le_of_eq (by simp only [DeliverySys.inOrder, hwait])
  | some call =>
    obtain ⟨rest, -, hrest, -⟩ := h.waiting call.1 call.2 hwait
    exact (h.inOrder_waiting hwait hrest).2

/-- The calls other than the one `sendBatch` waits for do not count. -/
theorem inOrder_set {s : DeliverySys} {i : Nat} (hi : s.waiting.map Prod.fst ≠ some i) (rest : List CommandEntry)
    (replica : Server) (highest : UInt64) :
    DeliverySys.inOrder { s with calls := s.calls.set i rest, replica := replica, highest := highest } = s.inOrder := by
  unfold DeliverySys.inOrder
  dsimp only
  cases hwait : s.waiting with
  | none => rfl
  | some call =>
    have hne : i ≠ call.1 := fun heq => hi (by rw [hwait, heq]; rfl)
    dsimp only
    rw [List.getElem?_set_ne hne]

theorem logged_step {p : UInt32} {db : RocksDB} {s s' : DeliverySys} {a : DeliveryAct} (h : SendInv p s)
    (hlogged : Logged p db s.inOrder s) (hbehind : NotBehind s a) (hstep : Delivers p s a s') :
    Logged p db s'.inOrder s' := by
  have hinv : SendInv p s' := sendInv_step h hstep
  cases hstep with
  | log _ hent => exact logged_log hlogged hent
  | stay => exact hlogged
  | @send batch hwait hbatch =>
    -- the new call is to begin where the watermark is
    have hat := (hinv.inOrder_waiting rfl (List.getElem?_concat_length)).1
    have hmark : s.inOrder = s.replicatedSeq.toNat := by simp only [DeliverySys.inOrder, hwait]
    refine hlogged.mono ?_
    have hlen := hat.length
    have hlen' := hbatch.length
    have hle := hat.le
    have hle' := hbatch.le
    omega
  | @apply i e rest hcall =>
    by_cases hown : s.waiting.map Prod.fst = some i
    · obtain ⟨⟨j, batch⟩, hwait, rfl⟩ := Option.map_eq_some_iff.1 hown
      obtain ⟨hget, hrest⟩ := (h.inOrder_waiting hwait hcall).1.next
      refine (hlogged.next hget).mono ?_
      have hset : (s.calls.set j rest)[j]? = some rest :=
        List.getElem?_set_self (List.getElem?_eq_some_iff.1 hcall).1
      have hat := (hinv.inOrder_waiting hwait hset).1
      have hlen := hat.length
      have hlen' := hrest.length
      have hle := hat.le
      have hle' := hrest.le
      omega
    · obtain ⟨a, b, hstretch⟩ := h.calls _ (List.mem_of_getElem? hcall)
      have hget := hstretch.next.1
      have hseq : e.sequence.toNat = a + 1 := by
        obtain ⟨hlt, rfl⟩ := List.getElem?_eq_some_iff.1 hget
        exact h.log.numbered.sequence_getElem hlt
      have hlt := hbehind e (by rw [hcall]; rfl)
      exact (hlogged.apply hget (by omega)).mono (inOrder_set hown _ _ _).le
  | @reply i batch hwait hdone =>
    have hend := (h.inOrder_waiting hwait hdone).1.done
    exact hlogged.mono (Nat.le_of_eq hend.symm)
  | timeout => exact hlogged.mono h.mark_le_inOrder
  | @lose i hi =>
    exact hlogged.mono (inOrder_set hi [] s.replica s.highest).le

theorem logged_run {p : UInt32} {r : Server} (hr : r.Writable p) {fileTime : Nat} {as : List DeliveryAct}
    {s : DeliverySys}
    (hc : Along (deliveryStep p) (fun s a => LogReadable s a ∧ NotBehind s a) (.start p fileTime r) as)
    (hrun : run (deliveryStep p) (.start p fileTime r) as = some s) : Logged p r.db s.replicatedSeq.toNat s := by
  obtain ⟨hinv, hlogged⟩ := run_inv_along (P := fun t => SendInv p t ∧ Logged p r.db t.inOrder t)
    (fun t a t' ht hca hst =>
      have hstep := deliveryStep_cases ht.1 hca.1 hst
      ⟨sendInv_step ht.1 hstep, logged_step ht.1 ht.2 hca.2 hstep⟩)
    ⟨sendInv_start hr fileTime, FromPrefix.start⟩ hc hrun
  exact hlogged.mono hinv.mark_le_inOrder

/-- The first batch is cut off after one of its two entries and times out; the next one brings both, and a third. -/
def cutOff : List DeliveryAct :=
  [.log (.append 0 2 1 [5] [1]), .log (.append 0 2 1 [6] [2]), .log .sync, .send, .apply 0, .timeout, .lose 0,
    .log (.append 0 2 1 [5] [3]), .log .sync, .send, .apply 1, .apply 1, .apply 1, .reply, .log (.append 0 2 1 [5] [4])]

end RocksKV.Storage
