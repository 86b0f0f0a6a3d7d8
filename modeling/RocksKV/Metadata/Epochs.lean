import RocksKV.Metadata.Router
/-!
# Epochs fence every change of a primary

Each operation copies the table field by field and has its own rule for the epoch: `PromoteReplica`
(`router.go:369-414`) and a primary `CompleteMigration` (`:494-559`) always move it, `RebalancePartitions`
(`:277-366`) where the ring gives another primary, `SetPartitionStatus` (`:417-454`) and a replica migration never.
Up to the migration fields, a table an operation builds has its own entries rewritten and the others copied
(`Op.routing_table`); what that means for epochs is `fenced_table`, and for whole runs `epochs_fence_primary_changes`.

An epoch is a `uint64` and `partition.Epoch + 1` wraps: at `2^64 - 1` the next change of the primary brings it
back to zero (`last_epoch_wraps`).
-/

namespace RocksKV.Metadata

open Lib

variable {hash : String → UInt32}

/-- **What an operation builds**, up to the migration fields: the entries it concerns rewritten, the others copied. -/
theorem Op.routing_table {op : Op} {snapshot t : RouteTable} (h : op.table hash snapshot = .ok t) {p : UInt32}
    {e' : PartitionInfo} (he : t.entry p = some e') : ∃ e, snapshot.entry p = some e ∧
      copyRouting e' = copyRouting (if op.concerns p then op.onEntry hash e else e) := by
  cases op with
  | promote q =>
    rw [entry_promoteReplica h p] at he
    split_ifs at he with hp <;> obtain ⟨e, hs, rfl⟩ := Option.map_eq_some_iff.1 he
    · exact ⟨e, hs, by simp [Op.concerns, Op.onEntry, hp]⟩
    · exact ⟨e, hs, by simp [Op.concerns, Ne.symm hp, copyRouting]⟩
  | setStatus q st =>
    rw [entry_setPartitionStatus h p] at he
    split_ifs at he with hp
    · obtain ⟨e, hs, rfl⟩ := Option.map_eq_some_iff.1 he
      exact ⟨e, hs, by simp [Op.concerns, Op.onEntry, hp]⟩
    · exact ⟨e', he, by simp [Op.concerns, Ne.symm hp]⟩
  | complete q n b =>
    rw [entry_completeMigration h p] at he
    split_ifs at he with hp <;> obtain ⟨e, hs, rfl⟩ := Option.map_eq_some_iff.1 he
    · exact ⟨e, hs, by simp [Op.concerns, Op.onEntry, hp]⟩
    · exact ⟨e, hs, by simp [Op.concerns, Ne.symm hp, copyRouting]⟩
  | rebalance ring =>
    cases h
    rw [entry_rebalancePartitions] at he
    obtain ⟨e, hs, rfl⟩ := Option.map_eq_some_iff.1 he
    exact ⟨e, hs, rfl⟩

theorem fields_of_copyRouting {e e' : PartitionInfo} (h : copyRouting e' = copyRouting e) :
    e'.primary = e.primary ∧ e'.replica = e.replica ∧ e'.status = e.status ∧ e'.epoch = e.epoch := by
  simp only [copyRouting, PartitionInfo.mk.injEq] at h
  exact ⟨h.2.1, h.2.2.1, h.2.2.2.1, h.2.2.2.2.2.2⟩

/-- The partitions are those of the snapshot. -/
theorem Op.isSome_table {op : Op} {snapshot t : RouteTable} (h : op.table hash snapshot = .ok t) (p : UInt32) :
    (t.entry p).isSome = (snapshot.entry p).isSome := by
  cases op with
  | promote q =>
    rw [entry_promoteReplica h p]
    split_ifs <;> exact Option.isSome_map
  | setStatus q st =>
    rw [entry_setPartitionStatus h p]
    split_ifs
    · exact Option.isSome_map
    · rfl
  | complete q n b =>
    rw [entry_completeMigration h p]
    split_ifs <;> exact Option.isSome_map
  | rebalance ring =>
    cases h
    rw [entry_rebalancePartitions]
    exact Option.isSome_map

/-- The operation adds one to the epoch of partition `p`, whose entry is `e`. -/
def Op.raises (hash : String → UInt32) (p : UInt32) (e : PartitionInfo) : Op → Bool
  | .promote q => decide (q = p)
  | .setStatus _ _ => false
  | .complete q _ isPrimary => isPrimary && decide (q = p)
  | .rebalance ring => decide (e.primary ≠ (ring.getNodes hash e.id).1)

/-- What an operation does to an epoch, and what it leaves the primary where it does nothing. -/
theorem Op.epoch_onEntry {op : Op} {p : UInt32} (hc : op.concerns p = true) (e : PartitionInfo) :
    (op.onEntry hash e).epoch = (if op.raises hash p e then e.epoch + 1 else e.epoch) ∧
      (op.raises hash p e = false → (op.onEntry hash e).primary = e.primary) := by
  cases op with
  | promote q =>
    simp only [Op.concerns] at hc
    simp [Op.raises, hc, Op.onEntry, promoted]
  | setStatus q st => simp [Op.raises, Op.onEntry]
  | complete q n b =>
    simp only [Op.concerns] at hc
    cases b <;> simp [Op.raises, hc, Op.onEntry, migrated, copyRouting]
  | rebalance ring =>
    by_cases h : e.primary = (ring.getNodes hash e.id).1 <;> simp [Op.raises, Op.onEntry, rebalanced, h]

/-- What two consecutive committed tables must have, the second of them built by `op`. -/
structure Fenced (op : Op) (old new : RouteTable) : Prop where
  ids    : ∀ p, (new.entry p).isSome = (old.entry p).isSome
  epochs : ∀ p e e', old.entry p = some e → new.entry p = some e' →
    e.epoch ≤ e'.epoch ∧ (e'.primary ≠ e.primary → e.epoch < e'.epoch)
  /-- A rebalance concerns every partition, so this is about the others. -/
  others : ∀ p e e', op.concerns p = false → old.entry p = some e → new.entry p = some e' →
    e'.primary = e.primary ∧ e'.replica = e.replica ∧ e'.status = e.status ∧ e'.epoch = e.epoch

theorem fenced_refl (op : Op) (t : RouteTable) : Fenced op t t where
  ids _ := rfl
  epochs p e e' he he' := by
    obtain rfl := Option.some.inj (he.symm.trans he')
    exact ⟨UInt64.le_refl _, fun h => absurd rfl h⟩
  others p e e' _ he he' := by
    obtain rfl := Option.some.inj (he.symm.trans he')
    exact ⟨rfl, rfl, rfl, rfl⟩

theorem lt_succ_epoch {n : UInt64} (h : n.toNat + 1 < 2 ^ 64) : n < n + 1 := by
  rw [UInt64.lt_iff_toNat_lt, UInt64.toNat_add, show (1 : UInt64).toNat = 1 from rfl, Nat.mod_eq_of_lt h]
  omega

/-- No epoch the operation adds one to is the last. -/
def Op.NoWrap (hash : String → UInt32) (snapshot : RouteTable) (op : Op) : Prop :=
  ∀ x ∈ snapshot.partitions.entries, op.raises hash x.1 x.2 = true → x.2.epoch.toNat + 1 < 2 ^ 64

instance (snapshot : RouteTable) (op : Op) : Decidable (op.NoWrap hash snapshot) :=
  inferInstanceAs (Decidable (∀ x ∈ snapshot.partitions.entries,
    op.raises hash x.1 x.2 = true → x.2.epoch.toNat + 1 < 2 ^ 64))

/-- **One operation** fences the changes it makes. -/
theorem fenced_table {op : Op} {snapshot t : RouteTable} (hw : op.NoWrap hash snapshot)
    (h : op.table hash snapshot = .ok t) : Fenced op snapshot t := by
  refine ⟨fun p => op.isSome_table h p, fun p e e' he he' => ?_, fun p e e' hc he he' => ?_⟩
  · obtain ⟨x, hx, hrt⟩ := Op.routing_table h he'
    obtain rfl := Option.some.inj (hx.symm.trans he)
    obtain ⟨hpr, -, -, hep⟩ := fields_of_copyRouting hrt
    by_cases hc : op.concerns p = true
    · obtain ⟨hepoch, hprimary⟩ := @Op.epoch_onEntry hash op p hc x
      simp only [hc, if_true] at hep hpr
      rw [hep, hpr, hepoch]
      by_cases hr : op.raises hash p x = true
      · have hlt := lt_succ_epoch (hw (p, x) (OrdMap.mem_entries.2 he) hr)
        rw [if_pos hr]
        exact ⟨UInt64.le_of_lt hlt, fun _ => hlt⟩
      · rw [if_neg hr]
        exact ⟨UInt64.le_refl _, fun hne => absurd (hprimary (by simpa using hr)) hne⟩
    · simp only [hc] at hep hpr
      rw [hep, hpr]
      exact ⟨UInt64.le_refl _, fun hne => absurd rfl hne⟩
  · obtain ⟨x, hx, hrt⟩ := Op.routing_table h he'
    obtain rfl := Option.some.inj (hx.symm.trans he)
    rw [hc] at hrt
    exact fields_of_copyRouting hrt

/-- A step that commits fences the table it commits against the one before; any other step commits nothing. -/
def Fences (hash : String → UInt32) (s : RouterSys) (a : Act) : Prop :=
  ∀ s', step hash s a = some s' → match a.source s with
    | none => s'.committed = s.committed
    | some (op, _) => Fenced op s.committed s'.committed

/-- The step starts from the committed table and moves no epoch beyond the last. -/
def FreshNoWrap (hash : String → UInt32) (s : RouterSys) (a : Act) : Prop :=
  Fresh s a ∧ ∀ x ∈ a.source s, x.1.NoWrap hash x.2

instance (s : RouterSys) (a : Act) : Decidable (FreshNoWrap hash s a) :=
  inferInstanceAs (Decidable (Fresh s a ∧ ∀ x ∈ a.source s, x.1.NoWrap hash x.2))

theorem fences_step {s : RouterSys} {a : Act} (h : FreshNoWrap hash s a) : Fences hash s a := by
  obtain ⟨hf, hw⟩ := h
  intro s' hst
  obtain ⟨op, snapshot, t, rs, hs, ht, rfl⟩ | ⟨rs, rfl⟩ | ⟨t, rest, rfl, -, rfl⟩ := step_cases hst
  · have hsrc : a.source s = some (op, snapshot) := hs
    have hparts : snapshot.partitions = s.committed.partitions := hf _ hs
    have hfen := fenced_table (hw _ hs) ht
    have hold : ∀ p, snapshot.entry p = s.committed.entry p := fun p => by rw [RouteTable.entry, hparts]; rfl
    rw [hsrc]
    exact ⟨fun p => (hfen.ids p).trans (by rw [hold]), fun p e e' he => hfen.epochs p e e' ((hold p).trans he),
      fun p e e' hc he => hfen.others p e e' hc ((hold p).trans he)⟩
  · cases hsrc : a.source s with
    | none => rfl
    | some x => exact fenced_refl x.1 _
  · rfl

/-- **Epochs fence every primary change**: in every run whose operations start from the committed table and add
one only to epochs below `2^64 - 1`, no committed table has another set of partitions or a lower epoch than the
one before it, a partition with another primary has a higher one, and the three edits leave the other partitions
as they are. -/
theorem epochs_fence_primary_changes (hash : String → UInt32) (init : RouteTable) {as : List Act}
    (h : Along (step hash) (FreshNoWrap hash) (.start init) as) : Along (step hash) (Fences hash) (.start init) as :=
  along_of_inv (P := fun _ => True) (fun _ _ _ _ _ _ => trivial) (fun _ _ _ hc => fences_step hc) trivial h

theorem promotions_are_fenced :
    Along (step hashKey) (Fences hashKey) (.start pairOnAB) [.promoteReplica 0, .deliver, .promoteReplica 0] :=
  epochs_fence_primary_changes hashKey pairOnAB (by decide)

/-- Partition 0 has used up its epochs. -/
def lastEpoch : RouteTable :=
  let full : PartitionInfo :=
    { id := 0, primary := "a", replica := "b", status := .normal, migrationTarget := "", migrationState := .none,
      epoch := 18446744073709551615 }
  RouteTable.new.setEntry full

/-- **The last epoch wraps**: a promotion brings it back to zero. -/
theorem last_epoch_wraps : Along (step hashKey) Fresh (.start lastEpoch) [.promoteReplica 0] ∧
    ¬ Along (step hashKey) (Fences hashKey) (.start lastEpoch) [.promoteReplica 0] := by
  refine ⟨by decide, fun h => ?_⟩
  have hfen : Fenced (.promote 0) lastEpoch _ := h.1 _ rfl
  have hle := (hfen.epochs 0 _ _ rfl rfl).1
  revert hle
  decide

end RocksKV.Metadata
