import RocksKV.Storage.WriteOrder
/-!
# Segments of the log that are sent again

After a failed batch `syncToReplica` starts again at `replicatedSeq + 1` (`command_log_replicator.go:251-287`), so the
replica may get entries it has applied already, followed by new ones.

| here | there |
| --- | --- |
| `entryWrites`   | what one turn of the loop in `Replicate` writes (`server.go:1384-1417`); `none` is a batch that does not decode |
| `segmentWrites` | what the loop writes before it ends or returns an error (`:1384-1427`) |
| `WellFormed`    | a put, a delete, or a field batch that `DecodeFieldBatch` reads |

`Replicate` keeps no record of what it has applied. That it may apply a segment twice rests on the writes alone: each
stores a value that does not depend on the one before it, so the segment's last write to a key decides again.
-/

namespace RocksKV.Storage

open Lib

/-! ## What `Replicate` writes -/

def entryWrites (p : UInt32) (e : Pb.ReplicationEntry) : Option (List (Write Bytes Bytes)) :=
  match e.opType with
  | .delete => some [.delete (makePartitionKey p e.key)]
  | .put => some [.put (makePartitionKey p e.key) e.value]
  | .fieldBatch =>
    match decodeFieldBatch e.value with
    | .error _ => none
    | .ok fb => some (fieldWrites (if fb.partitionID = 0 then p else fb.partitionID) fb)

def segmentWrites (p : UInt32) : List Pb.ReplicationEntry → List (Write Bytes Bytes)
  | [] => []
  | e :: es =>
    match entryWrites p e with
    | none => []
    | some ws => ws ++ segmentWrites p es

/-- The entry is not a field batch that cannot be read. -/
def WellFormed (e : Pb.ReplicationEntry) : Prop := e.opType = .fieldBatch → ∃ fb, decodeFieldBatch e.value = .ok fb

theorem wellFormed_iff {p : UInt32} {e : Pb.ReplicationEntry} : WellFormed e ↔ ∃ ws, entryWrites p e = some ws := by
  unfold WellFormed entryWrites
  cases e.opType with
  | put => simp
  | delete => simp
  | fieldBatch => cases decodeFieldBatch e.value <;> simp

/-- **One entry** on a partition in status `NORMAL`: its writes are made, or it is refused. -/
theorem replicateEntry_eq {r : Server} {p : UInt32} (hr : r.Writable p) (e : Pb.ReplicationEntry) :
    (∃ m, entryWrites p e = none ∧ r.replicateEntry p e = .error m) ∨
    ∃ ws, entryWrites p e = some ws ∧ r.replicateEntry p e = .ok { r with pm := { r.pm with db := r.db.write ws } } := by
  obtain ⟨q, hq, hst⟩ := hr
  unfold entryWrites Server.replicateEntry
  cases e.opType with
  | put => exact .inr ⟨_, rfl, by simp [PartitionManager.put, PartitionManager.writeIf, hq, hst, Server.db]⟩
  | delete => exact .inr ⟨_, rfl, by simp [PartitionManager.delete, PartitionManager.writeIf, hq, hst, Server.db]⟩
  | fieldBatch =>
    cases decodeFieldBatch e.value with
    | error m => exact .inl ⟨m, rfl, rfl⟩
    | ok fb => exact .inr ⟨_, rfl, rfl⟩

/-- **The loop** makes the writes of its entries up to the first that cannot be read. -/
theorem replicateFrom_eq {p : UInt32} : ∀ (es : List Pb.ReplicationEntry) {r : Server} (lastApplied : Int), r.Writable p →
    (r.replicateFrom p lastApplied es).1 = { r with pm := { r.pm with db := r.db.write (segmentWrites p es) } }
  | [], r, lastApplied, _ => rfl
  | e :: es, r, lastApplied, hr => by
    rw [Server.replicateFrom, segmentWrites]
    obtain ⟨m, hws, he⟩ | ⟨ws, hws, he⟩ := replicateEntry_eq hr e
    · rw [he, hws]
      rfl
    · have hrest := @replicateFrom_eq p es { r with pm := { r.pm with db := r.db.write ws } } e.offset hr
      rw [he, hws]
      dsimp only
      rw [hrest, write_append]
      rfl

theorem replicate_eq {r : Server} {p : UInt32} (hr : r.Writable p) (es : List Pb.ReplicationEntry) :
    (r.replicate p es).1 = { r with pm := { r.pm with db := r.db.write (segmentWrites p es) } } := by
  rw [Server.replicate, hr.hasPartition]
  exact replicateFrom_eq es 0 hr

/-! ## Applying a segment twice -/

theorem segmentWrites_append {p : UInt32} (l : List Pb.ReplicationEntry) {es : List Pb.ReplicationEntry}
    (h : ∀ e ∈ es, WellFormed e) : segmentWrites p (es ++ l) = segmentWrites p es ++ segmentWrites p l := by
  induction es with
  | nil => rfl
  | cons e es ih =>
    obtain ⟨ws, hws⟩ := (wellFormed_iff (p := p)).1 (h e List.mem_cons_self)
    have hrest := ih fun x hx => h x (List.mem_cons_of_mem _ hx)
    simp only [List.cons_append, segmentWrites, hws, hrest, List.append_assoc]

/-- An entry that cannot be read hides whatever follows it. -/
theorem segmentWrites_stop {p : UInt32} (l : List Pb.ReplicationEntry) {es : List Pb.ReplicationEntry}
    (h : ∃ e ∈ es, ¬ WellFormed e) : segmentWrites p (es ++ l) = segmentWrites p es := by
  induction es with
  | nil => simp at h
  | cons e es ih =>
    rw [List.cons_append, segmentWrites, segmentWrites]
    cases hws : entryWrites p e with
    | none => rfl
    | some ws =>
      have hrest : ∃ x ∈ es, ¬ WellFormed x := by
        obtain ⟨x, hx, hbad⟩ := h
        rcases List.mem_cons.1 hx with rfl | hx
        · exact absurd (wellFormed_iff.2 ⟨ws, hws⟩) hbad
        · exact ⟨x, hx, hbad⟩
      simp only [ih hrest]

/-- **Re-sent segments are absorbed**: a replica that has applied `xs ++ ys` and then gets `ys ++ zs` ends as if it had
been sent `xs ++ ys ++ zs`. Only `xs` has to be readable: an entry of `ys` or `zs` that is not stops both at one place. -/
theorem resent_segment_absorbed {p : UInt32} {r : Server} (hr : r.Writable p) {xs : List Pb.ReplicationEntry}
    (hxs : ∀ e ∈ xs, WellFormed e) (ys zs : List Pb.ReplicationEntry) :
    ((r.replicate p (xs ++ ys)).1.replicate p (ys ++ zs)).1 = (r.replicate p (xs ++ ys ++ zs)).1 := by
  have hr' : (r.replicate p (xs ++ ys)).1.Writable p := by
    rw [replicate_eq hr]
    exact hr
  have hwrites : (r.db.write (segmentWrites p (xs ++ ys))).write (segmentWrites p (ys ++ zs)) =
      r.db.write (segmentWrites p (xs ++ ys ++ zs)) := by
    rw [List.append_assoc, segmentWrites_append ys hxs, segmentWrites_append (ys ++ zs) hxs, write_append, write_append]
    by_cases hys : ∀ e ∈ ys, WellFormed e
    · rw [segmentWrites_append zs hys, write_append, write_self, write_append]
    · push Not at hys
      rw [segmentWrites_stop zs hys, write_self]
  rw [replicate_eq hr', replicate_eq hr, replicate_eq hr]
  simp only [Server.db] at hwrites ⊢
  rw [hwrites]

/-- A put, then its delete and a field sent twice, then another put of the key. -/
theorem resent_segment_absorbed_delete :
    let put (offset : Int) (value : Bytes) : Pb.ReplicationEntry := ⟨offset, [5], value, .put⟩
    let delete : Pb.ReplicationEntry := ⟨2, [5], [], .delete⟩
    let field : Pb.ReplicationEntry := ⟨3, [], (setBatch 7 [1] [⟨[2], [3], false⟩]).encode, .fieldBatch⟩
    primaryOfSeven.Writable 7 ∧ WellFormed (put 1 [1]) ∧
      ((primaryOfSeven.replicate 7 ([put 1 [1]] ++ [delete, field])).1.replicate 7 ([delete, field] ++ [put 4 [6]])).1 =
        (primaryOfSeven.replicate 7 ([put 1 [1]] ++ [delete, field] ++ [put 4 [6]])).1 := by
  intro put delete field
  have hr : primaryOfSeven.Writable 7 := ⟨_, rfl, rfl⟩
  have hput : WellFormed (put 1 [1]) := by simp [WellFormed, put]
  refine ⟨hr, hput, resent_segment_absorbed hr ?_ _ _⟩
  intro e he
  rw [List.mem_singleton.1 he]
  exact hput

end RocksKV.Storage
