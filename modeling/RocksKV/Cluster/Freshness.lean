import RocksKV.Cluster.Delivery
import RocksKV.Lib.Run
/-!
# Two writers of one routing table (`pkg/compute/router.go:187-314`)

| here | there |
| --- | --- |
| `ask`, `answer`, `fail` | `refreshRouteTable` up to the reply (`:187-197`); the server answers at some moment between |
| `store`   | the rest of it (`:199-206`) with `updateRouteTable` (`:249-274`) |
| `receive` | `stream.Recv` (`:239`) and `updateRouteTableFromUpdate` up to its store (`:277-306`), on the table loaded there |
| `apply`   | its `routeTable.Store` (`:308`) |
| `restart` | `doSubscribe` fails and is called again (`:209-246`) |
| `publish` | the metadata server has a new table |

The table that the metadata server answers from only grows here. Its cache can go back too, when an allocation stores
its table after a later one has arrived (`RocksKV.Metadata.Subscribers`, the action `direct`); what is shown here is about
the compute router, and holds while the cache does not.

**Bug**: a poll's answer is stored without a look at the table that is there, and the look a pushed update takes comes
before its store. A table that the other goroutine stores in between is replaced by an older one (`route_goes_back`).
-/

namespace RocksKV.Cluster

open Lib Metadata

/-- Where the polling goroutine is. -/
inductive Poll
  | idle
  | asked (version : Nat)
  | answered (resp : Pb.RouteUpdate)

structure RouteReaders where
  /-- The table the metadata server answers from. -/
  served    : RouteTable
  /-- Every table it has had. -/
  published : List RouteTable
  /-- `r.routeTable` of the compute router. -/
  table     : Compute.RouteTable
  poll      : Poll
  /-- The last version on the current stream. -/
  streamed  : Nat
  /-- The table the subscription goroutine has built and not yet stored. -/
  push      : Option Compute.RouteTable

inductive ReadAct
  | publish (table : RouteTable)
  | ask
  | answer
  | fail
  | store
  | restart
  /-- The stream delivers the `i`-th table. -/
  | receive (i : Nat)
  | apply

namespace RouteReaders

def start (served : RouteTable) : RouteReaders :=
  { served, published := [served], table := .new, poll := .idle, streamed := 0, push := none }

/-- The version that the polling goroutine is going to store. An answer without partitions is not stored. -/
def pending (s : RouteReaders) : Option Nat :=
  match s.poll with
  | .answered resp => if resp.partitions = [] then none else some resp.version
  | _ => none

end RouteReaders

def readStep (s : RouteReaders) : ReadAct → Option RouteReaders
  | .publish table =>
    if s.served.version < table.version then some { s with served := table, published := s.published ++ [table] } else none
  | .ask =>
    match s.poll with
    | .idle => some { s with poll := .asked s.table.version }
    | _ => none
  | .answer =>
    match s.poll with
    | .asked version => some { s with poll := .answered (getRouteTable s.served version) }
    | _ => none
  | .fail =>
    match s.poll with
    | .asked _ => some { s with poll := .idle }
    | _ => none
  | .store =>
    match s.poll with
    | .answered resp =>
      if resp.partitions = [] then some { s with poll := .idle }
      else some { s with table := Compute.updateRouteTable resp, poll := .idle }
    | _ => none
  | .restart => if s.push.isNone then some { s with streamed := 0 } else none
  | .receive i =>
    match s.push, s.published[i]? with
    | none, some t =>
      if t.version < s.streamed then none
      else if t.version ≤ s.table.version then some { s with streamed := t.version }
      else some { s with
        streamed := t.version
        push := some (Compute.updateRouteTableFromUpdate s.table (sendRouteUpdate t)) }
    | _, _ => none
  | .apply =>
    match s.push with
    | some new => some { s with table := new, push := none }
    | none => none

/-- A goroutine that is about to store does not find its table outdated: no answer is stored between the check and the
store of an update, and no update between an older answer and its store. -/
def Apart (s : RouteReaders) : ReadAct → Prop
  | .store => s.pending.isSome = true → s.push.isNone = true
  | .apply => ∀ new ∈ s.push, ∀ version ∈ s.pending, new.version ≤ version
  | _ => True

instance (s : RouteReaders) : ∀ a, Decidable (Apart s a)
  | .store => inferInstanceAs (Decidable (_ → _))
  | .apply => inferInstanceAs (Decidable (∀ new ∈ s.push, ∀ version ∈ s.pending, new.version ≤ version))
  | .publish _ | .ask | .answer | .fail | .restart | .receive _ => isTrue trivial

/-! ## Where entries come from -/

/-- The entry is what the wire makes of the table's. -/
def From (t : RouteTable) (p : UInt32) (x : Pb.PartitionInfo) : Prop := ∃ e, t.entry p = some e ∧ x = wireEntry e

theorem mem_of_get_apply {p : UInt32} {x : Pb.PartitionInfo} : ∀ {entries : List Pb.PartitionInfo}
    {m : OrdMap UInt32 Pb.PartitionInfo}, (Compute.RouteTable.apply m entries).get p = some x →
    m.get p = some x ∨ x ∈ entries ∧ x.partitionId = p
  | [], _, h => .inl h
  | y :: entries, m, h => by
    rcases @mem_of_get_apply p x entries _ h with hm | ⟨hx, hp⟩
    · rw [OrdMap.get_insert] at hm
      split_ifs at hm with hp
      · cases hm
        exact .inr ⟨List.mem_cons_self, hp.symm⟩
      · exact .inl hm
    · exact .inr ⟨List.mem_cons_of_mem _ hx, hp⟩

theorem from_sent {t : RouteTable} {p : UInt32} {x : Pb.PartitionInfo} {m : OrdMap UInt32 Pb.PartitionInfo}
    (h : (Compute.RouteTable.apply m (sendRouteUpdate t).partitions).get p = some x) : m.get p = some x ∨ From t p x := by
  rcases mem_of_get_apply h with hm | ⟨hx, hp⟩
  · exact .inl hm
  · obtain ⟨q, e, he, rfl⟩ := mem_sendRouteUpdate.1 hx
    have hq : q = p := (RouteTable.id_of_entry he).symm.trans hp
    subst hq
    exact .inr ⟨e, he, rfl⟩

/-- Epochs keep their order on the wire. -/
theorem From.epoch_le {t t' : RouteTable} {p : UInt32} {x x' : Pb.PartitionInfo} (h : From t p x) (h' : From t' p x')
    (hle : ∀ e e', t.entry p = some e → t'.entry p = some e' → e.epoch ≤ e'.epoch) : x.epoch ≤ x'.epoch := by
  obtain ⟨e, he, rfl⟩ := h
  obtain ⟨e', he', rfl⟩ := h'
  have horder : e.epoch ≤ e'.epoch → (wireEntry e).epoch ≤ (wireEntry e').epoch := fun _ => UInt64.le_refl 0
  exact horder (hle e e' he he')

/-- `b` is `a` with entries of tables at least as new. -/
structure Advances (l : List RouteTable) (a b : Compute.RouteTable) : Prop where
  version : a.version ≤ b.version
  entries : ∀ p x, b.partitions.get p = some x →
    a.partitions.get p = some x ∨ ∃ t ∈ l, a.version ≤ t.version ∧ t.version ≤ b.version ∧ From t p x

theorem Advances.refl (l : List RouteTable) (a : Compute.RouteTable) : Advances l a a := ⟨le_refl _, fun _ _ h => .inl h⟩

theorem Advances.trans {l l' : List RouteTable} {a b c : Compute.RouteTable} (hab : Advances l a b) (hbc : Advances l' b c)
    (hl : ∀ t ∈ l, t ∈ l') : Advances l' a c := by
  refine ⟨hab.version.trans hbc.version, fun p x hx => ?_⟩
  rcases hbc.entries p x hx with hb | ⟨t, ht, hbt, htc, hfrom⟩
  · rcases hab.entries p x hb with ha | ⟨t, ht, hat, htb, hfrom⟩
    · exact .inl ha
    · exact .inr ⟨t, hl t ht, hat, htb.trans hbc.version, hfrom⟩
  · exact .inr ⟨t, ht, hab.version.trans hbt, htc, hfrom⟩

theorem Advances.pushed {l : List RouteTable} {a : Compute.RouteTable} {t : RouteTable} (ht : t ∈ l)
    (hv : a.version < t.version) : Advances l a (Compute.updateRouteTableFromUpdate a (sendRouteUpdate t)) := by
  have hnew : ¬ (sendRouteUpdate t).version ≤ a.version := Nat.not_le.2 hv
  rw [Compute.updateRouteTableFromUpdate, if_neg hnew]
  exact ⟨hv.le, fun p x hx => (from_sent hx).imp_right fun h => ⟨t, ht, hv.le, le_refl _, h⟩⟩

theorem Advances.polled {l : List RouteTable} {a : Compute.RouteTable} {t : RouteTable} (ht : t ∈ l)
    (hv : a.version ≤ t.version) : Advances l a (Compute.updateRouteTable (sendRouteUpdate t)) := by
  refine ⟨hv, fun p x hx => ?_⟩
  rcases from_sent hx with hnone | h
  · rw [OrdMap.get_empty] at hnone
    cases hnone
  · exact .inr ⟨t, ht, hv, le_refl _, h⟩

/-! ## Neither writer goes back -/

structure ReadInv (s : RouteReaders) : Prop where
  served  : s.served ∈ s.published ∧ ∀ t ∈ s.published, t.version ≤ s.served.version
  /-- The table is one the empty table has advanced to. -/
  table   : Advances s.published .new s.table ∧ s.table.version ≤ s.served.version
  /-- An answer that will be stored is a whole table, not older than the one it replaces. -/
  poll    : ∀ resp, s.poll = .answered resp → resp.partitions ≠ [] →
    s.table.version ≤ resp.version ∧ ∃ t ∈ s.published, resp = sendRouteUpdate t
  /-- The update is still one of the table that is there. -/
  push    : ∀ new, s.push = some new → ∃ t ∈ s.published, s.table.version < t.version ∧
    new = Compute.updateRouteTableFromUpdate s.table (sendRouteUpdate t)

theorem readInv_start (t : RouteTable) : ReadInv (.start t) where
  served := ⟨List.mem_singleton.2 rfl, fun u hu => by rw [List.mem_singleton.1 hu]; rfl⟩
  table := ⟨.refl _ _, Nat.zero_le _⟩
  poll := fun _ h => by cases h
  push := fun _ h => by cases h

/-- Where the table, the answer and the update stay and no table is taken back, only the new table of the server counts. -/
theorem ReadInv.publish {s : RouteReaders} (h : ReadInv s) {t : RouteTable} (ht : s.served.version < t.version) :
    ReadInv { s with served := t, published := s.published ++ [t] } where
  served := by
    refine ⟨by simp, fun u hu => ?_⟩
    rcases List.mem_append.1 hu with hu | hu
    · exact (h.served.2 u hu).trans ht.le
    · rw [List.mem_singleton.1 hu]
  table := ⟨h.table.1.trans (.refl _ _) fun _ => List.mem_append_left _, h.table.2.trans ht.le⟩
  poll := fun resp hresp hne => by
    obtain ⟨hle, u, hu, heq⟩ := h.poll resp hresp hne
    exact ⟨hle, u, List.mem_append_left _ hu, heq⟩
  push := fun new hnew => by
    obtain ⟨u, hu, hlt, heq⟩ := h.push new hnew
    exact ⟨u, List.mem_append_left _ hu, hlt, heq⟩

theorem ReadInv.setPoll {s : RouteReaders} (h : ReadInv s) {poll : Poll} (hp : ∀ resp, poll ≠ .answered resp) :
    ReadInv { s with poll := poll } :=
  ⟨h.served, h.table, fun resp hresp => absurd hresp (hp resp), h.push⟩

/-- **A step keeps the invariant and does not go back.** -/
theorem readInv_step {s s' : RouteReaders} {a : ReadAct} (h : ReadInv s) (hc : Apart s a) (hs : readStep s a = some s') :
    ReadInv s' ∧ Advances s'.published s.table s'.table ∧ ∀ t ∈ s.published, t ∈ s'.published := by
  cases a with
  | publish t =>
    simp only [readStep, Option.ite_none_right_eq_some] at hs
    obtain ⟨ht, hs⟩ := hs
    cases hs
    exact ⟨h.publish ht, .refl _ _, fun _ => List.mem_append_left _⟩
  | ask =>
    simp only [readStep] at hs
    split at hs
    · cases hs
      exact ⟨h.setPoll (by simp), .refl _ _, fun _ => id⟩
    · cases hs
  | answer =>
    simp only [readStep] at hs
    split at hs
    · rename_i version _
      cases hs
      refine ⟨⟨h.served, h.table, fun resp hresp hne => ?_, h.push⟩, .refl _ _, fun _ => id⟩
      cases hresp
      -- a caller that is behind gets the server's table, one that is not gets no partitions
      unfold getRouteTable at hne ⊢
      split_ifs at hne ⊢
      · exact absurd rfl hne
      · exact ⟨h.table.2, s.served, h.served.1, rfl⟩
    · cases hs
  | fail =>
    simp only [readStep] at hs
    split at hs
    · cases hs
      exact ⟨h.setPoll (by simp), .refl _ _, fun _ => id⟩
    · cases hs
  | store =>
    simp only [readStep] at hs
    split at hs
    · rename_i resp hresp
      split_ifs at hs with hempty
      · cases hs
        exact ⟨h.setPoll (by simp), .refl _ _, fun _ => id⟩
      · cases hs
        obtain ⟨hle, t, ht, rfl⟩ := h.poll resp hresp hempty
        have hnone : s.push = none := by simpa [RouteReaders.pending, hresp, hempty, Apart] using hc
        have hadv := Advances.polled ht hle
        refine ⟨⟨h.served, ⟨h.table.1.trans hadv fun _ => id, h.served.2 t ht⟩, nofun, fun new hnew => ?_⟩,
          hadv, fun _ => id⟩
        rw [show s.push = some new from hnew] at hnone
        cases hnone
    · cases hs
  | restart =>
    simp only [readStep, Option.ite_none_right_eq_some] at hs
    obtain ⟨-, hs⟩ := hs
    cases hs
    exact ⟨⟨h.served, h.table, h.poll, h.push⟩, .refl _ _, fun _ => id⟩
  | receive i =>
    simp only [readStep] at hs
    split at hs
    · rename_i t hnone ht
      split_ifs at hs with hold hknown
      · cases hs
        exact ⟨⟨h.served, h.table, h.poll, h.push⟩, .refl _ _, fun _ => id⟩
      · cases hs
        refine ⟨⟨h.served, h.table, h.poll, fun new hnew => ?_⟩, .refl _ _, fun _ => id⟩
        cases hnew
        exact ⟨t, List.mem_of_getElem? ht, Nat.lt_of_not_le hknown, rfl⟩
    · cases hs
  | apply =>
    simp only [readStep] at hs
    split at hs
    · rename_i new hnew
      cases hs
      obtain ⟨t, ht, hlt, rfl⟩ := h.push new hnew
      have hadv := Advances.pushed ht hlt
      have hversion := (get_pushed hlt).1
      refine ⟨⟨h.served, ⟨h.table.1.trans hadv fun _ => id, hversion.le.trans (h.served.2 t ht)⟩, fun resp hresp hne => ?_,
        nofun⟩, hadv, fun _ => id⟩
      obtain ⟨-, hsent⟩ := h.poll resp hresp hne
      exact ⟨hc _ hnew _ (by simp [RouteReaders.pending, show s.poll = _ from hresp, hne]), hsent⟩
    · cases hs

/-- From any state on, through the rest of the run. -/
theorem advances_run {s s' : RouteReaders} {as : List ReadAct} (h : ReadInv s) (hc : Along readStep Apart s as)
    (hrun : run readStep s as = some s') : ReadInv s' ∧ Advances s'.published s.table s'.table ∧
      ∀ t ∈ s.published, t ∈ s'.published := by
  refine run_inv_along (P := fun u => ReadInv u ∧ Advances u.published s.table u.table ∧ ∀ t ∈ s.published, t ∈ u.published)
    ?_ ⟨h, .refl _ _, fun _ => id⟩ hc hrun
  rintro u a u' ⟨hinv, hadv, hsub⟩ hca hstep
  obtain ⟨hinv', hadv', hsub'⟩ := readInv_step hinv hca hstep
  exact ⟨hinv', hadv.trans hadv' hsub', fun t ht => hsub' t (hsub t ht)⟩

/-- In the metadata's tables epochs do not decrease with versions. -/
def EpochsFollow (l : List RouteTable) : Prop :=
  ∀ t ∈ l, ∀ t' ∈ l, t.version ≤ t'.version → ∀ p e e', t.entry p = some e → t'.entry p = some e' → e.epoch ≤ e'.epoch

theorem epoch_of_getPartitionNodesByID {table : Compute.RouteTable} {p : UInt32} {primary replica : String} {epoch : UInt64}
    (h : Compute.getPartitionNodesByID table p = .ok (primary, replica, epoch)) :
    ∃ x, table.partitions.get p = some x ∧ x.epoch = epoch := by
  unfold Compute.getPartitionNodesByID at h
  cases hx : table.partitions.get p with
  | none =>
    rw [hx] at h
    cases h
  | some x =>
    rw [hx] at h
    cases h
    exact ⟨x, rfl, rfl⟩

/-- **The routing table does not go back in time**: along every run in which the two goroutines keep apart, from any
state to any later one, its version does not decrease, nor does the epoch a partition is written under. -/
theorem routes_never_go_back {t : RouteTable} {as bs : List ReadAct} {s s' : RouteReaders}
    (hc : Along readStep Apart (.start t) as) (hrun : run readStep (.start t) as = some s)
    (hc' : Along readStep Apart s bs) (hrun' : run readStep s bs = some s') (hepochs : EpochsFollow s'.published) :
    s.table.version ≤ s'.table.version ∧
      ∀ p primary replica epoch primary' replica' epoch',
        Compute.getPartitionNodesByID s.table p = .ok (primary, replica, epoch) →
        Compute.getPartitionNodesByID s'.table p = .ok (primary', replica', epoch') → epoch ≤ epoch' := by
  obtain ⟨hinv, -, -⟩ := advances_run (readInv_start t) hc hrun
  obtain ⟨-, hadv, hsub⟩ := advances_run hinv hc' hrun'
  refine ⟨hadv.version, ?_⟩
  intro p primary replica epoch primary' replica' epoch' hbefore hafter
  obtain ⟨x, hx, rfl⟩ := epoch_of_getPartitionNodesByID hbefore
  obtain ⟨x', hx', rfl⟩ := epoch_of_getPartitionNodesByID hafter
  rcases hadv.entries p x' hx' with hsame | ⟨u', hu', hle, -, hfrom'⟩
  · rw [hx] at hsame
    cases hsame
    exact UInt64.le_refl _
  · -- the entry that was there is of a table no newer than the one it was in
    rcases hinv.table.1.entries p x hx with hnone | ⟨u, hu, -, hu_le, hfrom⟩
    · rw [show Compute.RouteTable.new.partitions = OrdMap.empty from rfl, OrdMap.get_empty] at hnone
      cases hnone
    · exact hfrom.epoch_le hfrom' (hepochs u (hsub u hu) u' hu' (hu_le.trans hle) p)

/-- One partition, in two versions. -/
def tableAt (version : Nat) : RouteTable := { tableAtZero with version := version }

theorem epoch_tableAt {version : Nat} {p : UInt32} {e : PartitionInfo} (he : (tableAt version).entry p = some e) :
    e.epoch = 0 := by
  have hmem := OrdMap.mem_entries.2 he
  obtain ⟨rfl, rfl⟩ := Prod.mk.inj (List.mem_singleton.1 hmem)
  rfl

/-- A poll, and a push after it. -/
theorem routes_never_go_back_two :
    ∃ s s', run readStep (.start (tableAt 1)) [.ask, .answer, .store] = some s ∧
      run readStep s [.publish (tableAt 2), .receive 1, .apply] = some s' ∧
      s.table.version = 1 ∧ s'.table.version = 2 ∧ s.table.version ≤ s'.table.version := by
  refine ⟨_, _, rfl, rfl, rfl, rfl, ?_⟩
  refine (@routes_never_go_back (tableAt 1) [.ask, .answer, .store] [.publish (tableAt 2), .receive 1, .apply] _ _
    (by decide +kernel) rfl (by decide +kernel) rfl ?_).1
  intro t ht t' ht' _ p e e' he he'
  have hzero : ∀ u ∈ [tableAt 1, tableAt 2], ∀ p e, u.entry p = some e → e.epoch = 0 := by
    simp only [List.mem_cons, List.not_mem_nil, or_false]
    rintro u (rfl | rfl) p e he <;> exact epoch_tableAt he
  rw [hzero t ht p e he, hzero t' ht' p e' he']

/-- **Bug**: the answer to a poll overtaken by a push, and an update checked before a poll's answer is stored, put an
older table in the place of a newer one. -/
theorem route_goes_back :
    (∃ s s', run readStep (.start (tableAt 1)) [.ask, .answer, .publish (tableAt 2), .receive 1, .apply] = some s ∧
      readStep s .store = some s' ∧ s.table.version = 2 ∧ s'.table.version = 1) ∧
    ∃ s s', run readStep (.start (tableAt 1)) [.receive 0, .publish (tableAt 2), .ask, .answer, .store] = some s ∧
      readStep s .apply = some s' ∧ s.table.version = 2 ∧ s'.table.version = 1 :=
  ⟨⟨_, _, rfl, rfl, rfl, rfl⟩, ⟨_, _, rfl, rfl, rfl, rfl⟩⟩

end RocksKV.Cluster
