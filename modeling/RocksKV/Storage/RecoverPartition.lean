import RocksKV.Storage.Replay
/-!
# What a replayed log recovers

The primary writes a plain key under the partition's prefix, the replay writes it as it stands; both write
document fields under the same storage key. So the two databases are compared write by write, as the last
write to each key decides. `recovers_iff` is the comparison over the events of a request sequence, and
`recovers_iff_settled` states it of the server, its log files and `ReplayTo`.

That `Settled` is needed rests on a chain: a plain key `k` that is still set on the primary is read at
`makePartitionKey p k`, and the replay can only have that key if `makePartitionKey p k` is itself a plain key
that is still set. Keys grow by six bytes along the chain, so it cannot go on (`Recovers.deleted`).
-/

namespace RocksKV.Storage

open Lib

/-! ## Which events touch a key -/

def fields (evs : List Event) : List (Write Bytes Bytes) :=
  evs.filterMap fun ev => match ev with
    | .plain _ => none
    | .field w => some w

@[simp] theorem plains_cons_plain (w : Write Bytes Bytes) (evs : List Event) :
    plains (.plain w :: evs) = w :: plains evs := rfl

@[simp] theorem plains_cons_field (w : Write Bytes Bytes) (evs : List Event) :
    plains (.field w :: evs) = plains evs := rfl

@[simp] theorem fields_cons_plain (w : Write Bytes Bytes) (evs : List Event) :
    fields (.plain w :: evs) = fields evs := rfl

@[simp] theorem fields_cons_field (w : Write Bytes Bytes) (evs : List Event) :
    fields (.field w :: evs) = w :: fields evs := rfl

theorem plains_append (as bs : List Event) : plains (as ++ bs) = plains as ++ plains bs := by
  simp [plains]

theorem fields_append (as bs : List Event) : fields (as ++ bs) = fields as ++ fields bs := by
  simp [fields]

/-- Every field write goes to a key of the partition behind the byte `':'`. -/
def FieldKeys (p : UInt32) (evs : List Event) : Prop :=
  ∀ w ∈ fields evs, ∃ t, w.key = makePartitionKey p (0x3a :: t)

theorem lastWrite_replayed {x : Bytes} : ∀ {evs : List Event}, (∀ w ∈ fields evs, x ≠ w.key) →
    lastWrite x (evs.map Event.replayed) = lastWrite x (plains evs)
  | [], _ => rfl
  | .plain w :: evs, h => by
    rw [fields_cons_plain] at h
    rw [List.map_cons, lastWrite, lastWrite_replayed h, plains_cons_plain, lastWrite]
    rfl
  | .field w :: evs, h => by
    rw [fields_cons_field] at h
    rw [List.map_cons, lastWrite, lastWrite_replayed fun u hu => h u (List.mem_cons_of_mem _ hu), plains_cons_field]
    rw [if_neg (show x ≠ (Event.field w).replayed.key from h w List.mem_cons_self), Option.or_none]

theorem lastWrite_live {p : UInt32} {k : Bytes} : ∀ {evs : List Event},
    (∀ w ∈ fields evs, makePartitionKey p k ≠ w.key) →
    lastWrite (makePartitionKey p k) (evs.map (Event.live p)) = lastWrite k (plains evs)
  | [], _ => rfl
  | .plain w :: evs, h => by
    rw [fields_cons_plain] at h
    rw [List.map_cons, lastWrite, lastWrite_live h, plains_cons_plain, lastWrite]
    by_cases hk : k = w.key <;> simp [Event.live, makePartitionKey_inj, hk]
  | .field w :: evs, h => by
    rw [fields_cons_field] at h
    rw [List.map_cons, lastWrite, lastWrite_live fun u hu => h u (List.mem_cons_of_mem _ hu), plains_cons_field]
    rw [if_neg (show makePartitionKey p k ≠ (Event.live p (.field w)).key from h w List.mem_cons_self), Option.or_none]

/-- The primary writes under the prefix only. -/
theorem lastWrite_live_of_ne {p : UInt32} {x : Bytes} {evs : List Event} (hf : FieldKeys p evs)
    (hx : ∀ k, x ≠ makePartitionKey p k) : lastWrite x (evs.map (Event.live p)) = none := by
  rw [lastWrite_eq_none]
  intro w hw
  obtain ⟨ev, hev, rfl⟩ := List.mem_map.1 hw
  cases ev with
  | plain u =>
    rw [Event.live, key_onStorageKey]
    exact hx _
  | field u =>
    obtain ⟨t, ht⟩ := hf u (List.mem_filterMap.2 ⟨_, hev, rfl⟩)
    rw [Event.live, ht]
    exact hx _

/-- The last field write to a key. -/
theorem exists_last_field {x : Bytes} : ∀ {evs : List Event}, (∃ w ∈ fields evs, x = w.key) →
    ∃ as w bs, evs = as ++ .field w :: bs ∧ x = w.key ∧ ∀ u ∈ fields bs, x ≠ u.key
  | [], ⟨w, hw, _⟩ => by cases hw
  | ev :: evs, h => by
    by_cases hin : ∃ w ∈ fields evs, x = w.key
    · obtain ⟨as, w, bs, rfl, hw, hbs⟩ := exists_last_field hin
      exact ⟨ev :: as, w, bs, rfl, hw, hbs⟩
    · push Not at hin
      cases ev with
      | plain w =>
        obtain ⟨u, hu, hx⟩ := h
        exact absurd hx (hin u hu)
      | field w =>
        obtain ⟨u, hu, hx⟩ := h
        rcases List.mem_cons.1 hu with rfl | hu
        · exact ⟨[], u, evs, rfl, hx, hin⟩
        · exact absurd hx (hin u hu)

/-- After the last field write to a key only plain writes decide. -/
theorem lastWrite_after {x : Bytes} (f : Event → Write Bytes Bytes) {as bs : List Event} {w : Write Bytes Bytes}
    (hf : f (.field w) = w) (hw : x = w.key) :
    lastWrite x ((as ++ .field w :: bs).map f) = (lastWrite x (bs.map f)).or (some w.val) := by
  rw [List.map_append, lastWrite_append, List.map_cons, lastWrite, hf, if_pos hw, Option.or_assoc]
  rfl

/-! ## The condition -/

/-- A field that is set at the end: a plain write under its storage key follows it on the primary if and only
if one follows it in the replay. -/
def FieldsAgree (p : UInt32) : List Event → Prop
  | [] => True
  | .plain _ :: evs => FieldsAgree p evs
  | .field w :: evs =>
    (w.val.isSome = true → (∀ u ∈ fields evs, w.key ≠ u.key) →
      ((∃ u ∈ plains evs, makePartitionKey p u.key = w.key) ↔ ∃ u ∈ plains evs, u.key = w.key)) ∧ FieldsAgree p evs

/-- Every plain key has been deleted again, and plain keys do not tell the two paths' fields apart. -/
def Settled (p : UInt32) (evs : List Event) : Prop :=
  (∀ w ∈ plains evs, lastWrite w.key (plains evs) = some none) ∧ FieldsAgree p evs

instance FieldsAgree.decidable (p : UInt32) : ∀ evs : List Event, Decidable (FieldsAgree p evs)
  | [] => inferInstanceAs (Decidable True)
  | .plain _ :: evs => FieldsAgree.decidable p evs
  | .field w :: evs =>
    have := FieldsAgree.decidable p evs
    inferInstanceAs (Decidable ((w.val.isSome = true → (∀ u ∈ fields evs, w.key ≠ u.key) →
      ((∃ u ∈ plains evs, makePartitionKey p u.key = w.key) ↔ ∃ u ∈ plains evs, u.key = w.key)) ∧ FieldsAgree p evs))

instance (p : UInt32) (evs : List Event) : Decidable (Settled p evs) := inferInstanceAs (Decidable (_ ∧ _))

theorem fieldsAgree_iff {p : UInt32} : ∀ {evs : List Event}, FieldsAgree p evs ↔
    ∀ as w bs, evs = as ++ .field w :: bs → w.val.isSome = true → (∀ u ∈ fields bs, w.key ≠ u.key) →
      ((∃ u ∈ plains bs, makePartitionKey p u.key = w.key) ↔ ∃ u ∈ plains bs, u.key = w.key)
  | [] => by simp [FieldsAgree]
  | .plain v :: evs => by
    rw [FieldsAgree, fieldsAgree_iff]
    constructor
    · intro h as w bs heq
      cases as with
      | nil => cases heq
      | cons a as =>
        cases heq
        exact h as w bs rfl
    · intro h as w bs heq
      exact h (.plain v :: as) w bs (by rw [heq, List.cons_append])
  | .field v :: evs => by
    rw [FieldsAgree, fieldsAgree_iff]
    constructor
    · rintro ⟨hv, h⟩ as w bs heq
      cases as with
      | nil =>
        cases heq
        exact hv
      | cons a as =>
        cases heq
        exact h as w bs rfl
    · intro h
      refine ⟨h [] v evs rfl, fun as w bs heq => ?_⟩
      exact h (.field v :: as) w bs (by rw [heq, List.cons_append])

/-- No plain key is set. -/
theorem deleted_iff {ws : List (Write Bytes Bytes)} :
    (∀ w ∈ ws, lastWrite w.key ws = some none) ↔ ∀ k, (lastWrite k ws).getD none = none := by
  constructor
  · intro h k
    cases hk : lastWrite k ws with
    | none => rfl
    | some o =>
      have hne : lastWrite k ws ≠ none := by simp [hk]
      rw [Ne, lastWrite_eq_none] at hne
      push Not at hne
      obtain ⟨w, hw, rfl⟩ := hne
      rw [h w hw] at hk
      cases hk
      rfl
  · intro h w hw
    have hk := h w.key
    cases hlast : lastWrite w.key ws with
    | none => exact absurd rfl (lastWrite_eq_none.1 hlast w hw)
    | some o =>
      rw [hlast] at hk
      exact congrArg some hk

/-- With no plain key set at the end, a field's value survives exactly when no plain write to the key follows. -/
theorem getD_after {as bs : List Event} {w : Write Bytes Bytes} {k : Bytes}
    (hdel : ∀ k, (lastWrite k (plains (as ++ .field w :: bs))).getD none = none) :
    ((lastWrite k (plains bs)).or (some w.val)).getD none = if ∃ u ∈ plains bs, u.key = k then none else w.val := by
  cases hk : lastWrite k (plains bs) with
  | none =>
    rw [lastWrite_eq_none] at hk
    rw [if_neg]
    · rfl
    · rintro ⟨u, hu, rfl⟩
      exact hk u hu rfl
  | some o =>
    have hex : ∃ u ∈ plains bs, u.key = k := by
      by_contra hno
      push Not at hno
      rw [lastWrite_eq_none.2 fun u hu h => hno u hu h.symm] at hk
      cases hk
    have ho := hdel k
    rw [plains_append, lastWrite_append, plains_cons_field, hk] at ho
    rw [if_pos hex]
    exact ho

/-! ## The two databases -/

/-- The replay has what the primary has in the partition's range, and nothing else. -/
def Recovers (p : UInt32) (evs : List Event) : Prop :=
  (∀ x, InRange p x →
    (lastWrite x (evs.map Event.replayed)).getD none = (lastWrite x (evs.map (Event.live p))).getD none) ∧
  ∀ x, ¬ InRange p x → (lastWrite x (evs.map Event.replayed)).getD none = none

section
variable {p : UInt32} {evs : List Event}

/-- A user key that starts with `':'` lies outside every partition. -/
theorem not_inRange_colon (t : Bytes) : ¬ InRange p (0x3a :: t) := by
  intro h
  have hle : partitionKeyPrefix ++ be 4 p.toNat ≤ 0x3a :: t := h.1
  rw [← not_lt] at hle
  exact hle (List.cons_lt_cons_iff.2 (Or.inl (by decide)))

theorem colon_ne_fieldKey (hf : FieldKeys p evs) (t : Bytes) : ∀ w ∈ fields evs, 0x3a :: t ≠ w.key := by
  intro w hw heq
  obtain ⟨u, hu⟩ := hf w hw
  rw [hu] at heq
  have : (0x3a : UInt8) = 0x70 := (List.cons.inj heq).1
  exact absurd this (by decide)

theorem Settled.recovers (hp : p.toNat < 2 ^ 32 - 1) (hf : FieldKeys p evs) (h : Settled p evs) : Recovers p evs := by
  obtain ⟨hdel, hagree⟩ := h
  rw [deleted_iff] at hdel
  rw [fieldsAgree_iff] at hagree
  refine ⟨fun x hx => ?_, fun x hx => ?_⟩
  · by_cases hfield : ∃ w ∈ fields evs, x = w.key
    · obtain ⟨as, w, bs, rfl, rfl, hbs⟩ := exists_last_field hfield
      obtain ⟨t, ht⟩ := hf w (by rw [fields_append]; exact List.mem_append_right _ List.mem_cons_self)
      rw [lastWrite_after Event.replayed rfl rfl, lastWrite_after (Event.live p) rfl rfl, lastWrite_replayed hbs]
      rw [ht] at hbs ⊢
      rw [lastWrite_live hbs, getD_after hdel, getD_after hdel]
      rw [← ht] at hbs ⊢
      cases hv : w.val with
      | none => simp
      | some v =>
        have hiff := hagree as w bs rfl (by simp [hv]) hbs
        simp only [ht, makePartitionKey_inj, true_and] at hiff ⊢
        simp only [hiff]
    · push Not at hfield
      rw [lastWrite_replayed hfield, hdel]
      by_cases hk : ∃ k, x = makePartitionKey p k
      · obtain ⟨k, rfl⟩ := hk
        rw [lastWrite_live hfield, hdel]
      · push Not at hk
        rw [lastWrite_live_of_ne hf hk]
        rfl
  · rw [lastWrite_replayed, hdel]
    intro w hw heq
    obtain ⟨t, ht⟩ := hf w hw
    rw [heq, ht] at hx
    exact hx (inRange_makePartitionKey hp _)

/-- A plain key that is set has its storage key set as a plain key. -/
theorem Recovers.next (hp : p.toNat < 2 ^ 32 - 1) (hf : FieldKeys p evs) (h : Recovers p evs) {k v : Bytes}
    (hk : lastWrite k (plains evs) = some (some v)) :
    lastWrite (makePartitionKey p k) (plains evs) = some (some v) := by
  have hno : ∀ w ∈ fields evs, makePartitionKey p k ≠ w.key := by
    intro w hw heq
    -- then `k` starts with `':'` and the replay leaves it outside the range
    obtain ⟨t, ht⟩ := hf w hw
    rw [ht, makePartitionKey_inj] at heq
    obtain ⟨-, rfl⟩ := heq
    have hout := h.2 _ (not_inRange_colon t)
    rw [lastWrite_replayed (colon_ne_fieldKey hf t), hk] at hout
    cases hout
  have hin := h.1 _ (inRange_makePartitionKey hp k)
  rw [lastWrite_replayed hno, lastWrite_live hno, hk] at hin
  cases hlast : lastWrite (makePartitionKey p k) (plains evs) with
  | none =>
    rw [hlast] at hin
    cases hin
  | some o =>
    rw [hlast] at hin
    exact congrArg some hin

/-- **No plain key is set**: the chain of storage keys would not end. -/
theorem Recovers.deleted (hp : p.toNat < 2 ^ 32 - 1) (hf : FieldKeys p evs) (h : Recovers p evs) (k : Bytes) :
    (lastWrite k (plains evs)).getD none = none := by
  by_contra hne
  obtain ⟨v, hv⟩ : ∃ v, lastWrite k (plains evs) = some (some v) := by
    cases hk : lastWrite k (plains evs) with
    | none => simp [hk] at hne
    | some o =>
      cases o with
      | none => simp [hk] at hne
      | some v => exact ⟨v, rfl⟩
  have hchain : ∀ n, ∃ k', n ≤ k'.length ∧ lastWrite k' (plains evs) = some (some v) := by
    intro n
    induction n with
    | zero => exact ⟨k, Nat.zero_le _, hv⟩
    | succ n ih =>
      obtain ⟨k', hlen, hk'⟩ := ih
      exact ⟨makePartitionKey p k', by simp; omega, h.next hp hf hk'⟩
  obtain ⟨k', hlen, hk'⟩ := hchain (((plains evs).map fun w => w.key.length).sum + 1)
  have hmem : ∃ w ∈ plains evs, k' = w.key := by
    by_contra hno
    push Not at hno
    rw [lastWrite_eq_none.2 hno] at hk'
    cases hk'
  obtain ⟨w, hw, rfl⟩ := hmem
  have := List.single_le_sum (fun _ _ => Nat.zero_le _) w.key.length
    (List.mem_map_of_mem (f := fun w : Write Bytes Bytes => w.key.length) hw)
  omega

/-- **The replay recovers the partition exactly when it is settled.** -/
theorem recovers_iff (hp : p.toNat < 2 ^ 32 - 1) (hf : FieldKeys p evs) : Recovers p evs ↔ Settled p evs := by
  refine ⟨fun h => ?_, fun h => h.recovers hp hf⟩
  have hdel := h.deleted hp hf
  refine ⟨deleted_iff.2 hdel, fieldsAgree_iff.2 fun as w bs heq hsome hbs => ?_⟩
  subst heq
  obtain ⟨t, ht⟩ := hf w (by rw [fields_append]; exact List.mem_append_right _ List.mem_cons_self)
  have hin := h.1 _ (inRange_makePartitionKey hp (0x3a :: t))
  rw [← ht, lastWrite_after Event.replayed rfl rfl, lastWrite_after (Event.live p) rfl rfl,
    lastWrite_replayed hbs] at hin
  rw [ht] at hbs hin
  rw [lastWrite_live hbs, getD_after hdel, getD_after hdel] at hin
  obtain ⟨v, hv⟩ := Option.isSome_iff_exists.1 hsome
  simp only [ht, makePartitionKey_inj, true_and]
  rw [hv] at hin
  constructor
  · intro hleft
    by_contra hright
    rw [if_pos hleft, if_neg hright] at hin
    cases hin
  · intro hright
    by_contra hleft
    rw [if_neg hleft, if_pos hright] at hin
    cases hin

end

/-! ## The server, its log and `ReplayTo` -/

theorem makeFieldKey_colon (p : UInt32) (pk name : Bytes) :
    ∃ t, makeFieldKey p pk name = makePartitionKey p (0x3a :: t) :=
  ⟨fieldKeyMarker :: (be 4 pk.length ++ pk ++ name), by simp [makeFieldKey_eq, documentPrefix]⟩

theorem fieldKeys_events (p : UInt32) (reqs : List WriteRequest) :
    FieldKeys p (reqs.flatMap fun req => req.op.events p) := by
  intro w hw
  obtain ⟨ev, hev, hw⟩ := List.mem_filterMap.1 hw
  cases ev with
  | plain u => cases hw
  | field u =>
    cases hw
    obtain ⟨req, -, hev⟩ := List.mem_flatMap.1 hev
    cases hop : req.op with
    | put key value => simp [hop, WriteOp.events] at hev
    | delete key => simp [hop, WriteOp.events] at hev
    | batchPut items => simp [hop, WriteOp.events] at hev
    | deleteField pk name =>
      simp only [hop, WriteOp.events, List.mem_singleton, Event.field.injEq] at hev
      rw [hev]
      exact makeFieldKey_colon p pk name
    | setFields pk fs =>
      simp only [hop, WriteOp.events, fieldWrites, List.map_map, List.mem_map, Function.comp_apply,
        Event.field.injEq] at hev
      obtain ⟨u, -, rfl⟩ := hev
      split_ifs
      · exact makeFieldKey_colon p pk u.fieldName
      · exact makeFieldKey_colon p pk u.fieldName

/-- The database of a partition and one its log has been replayed to. -/
def RecoversExactly (p : UInt32) (primary replayed : RocksDB) : Prop :=
  (∀ k, InRange p k → replayed.get k = primary.get k) ∧ ∀ k, ¬ InRange p k → replayed.get k = none

/-- **Recovery from the command log**: a partition that started empty and whose acknowledged requests are all in
its log is recovered by `ReplayTo(db, 0)` on an empty database if and only if the requests leave it settled. -/
theorem recovers_iff_settled {p : UInt32} (hp : p.toNat < 2 ^ 32 - 1) {s s' : Server} {reqs : List WriteRequest}
    (hreqs : ∀ req ∈ reqs, req.partitionId = p ∧ req.op.Fits p) (hlogging : s.Logging p)
    (hdb : ∀ k, InRange p k → s.db.get k = none) (hlog : s.log p = []) (hack : s.handleAll reqs = .ok s')
    {cl : CommandLog} (hcl : cl.partitionID = p) (hnum : Numbered cl.readable)
    (hall : cl.readable.map CommandEntry.command = (s'.log p).map some) :
    RecoversExactly p s'.db (cl.replayTo OrdMap.empty 0).1 ↔ Settled p (reqs.flatMap fun req => req.op.events p) := by
  rw [← recovers_iff hp (fieldKeys_events p reqs)]
  obtain ⟨hdb', hlog'⟩ := Server.handleAll_ok (fun req hr => (hreqs req hr).1) hlogging hack
  rw [hlog, List.nil_append] at hlog'
  have hpos : ∀ e ∈ cl.readable, 0 < e.sequence := by
    intro e he
    have hmem : e.sequence.toNat ∈ cl.readable.map fun e => e.sequence.toNat := List.mem_map_of_mem he
    rw [hnum, List.mem_range'_1] at hmem
    rw [UInt64.lt_iff_toNat_lt]
    exact hmem.1
  have hreplay : (cl.replayTo OrdMap.empty 0).1
      = OrdMap.empty.write ((reqs.flatMap fun req => req.op.events p).map Event.replayed) := by
    rw [CommandLog.replayTo, hcl, List.map_flatMap, ← foldl_write_flatMap]
    exact replayLoop_eq (hlog' ▸ hall) hpos
      (foldlM_flatMap_ok fun req hr db => replay_commands (hreqs req hr).2 db)
  have hlive : s'.db = s.db.write ((reqs.flatMap fun req => req.op.events p).map (Event.live p)) := by
    rw [hdb', List.map_flatMap]
    congr 1
    exact List.flatMap_congr fun req _ => writes_eq_events p req.op
  unfold RecoversExactly Recovers
  rw [hreplay, hlive]
  simp only [get_write, OrdMap.get_empty]
  constructor
  · rintro ⟨hin, hout⟩
    refine ⟨fun x hx => ?_, hout⟩
    rw [hin x hx, hdb x hx]
  · rintro ⟨hin, hout⟩
    refine ⟨fun x hx => ?_, hout⟩
    rw [hin x hx, hdb x hx]

/-- A synced log of partition `p` with the commands `cs`. -/
def logOf (p : UInt32) (cs : List Command) : CommandLog :=
  let log := cs.foldl (fun cl c => match cl.append 0 2 c.cmdType.byte c.key c.value with
    | .error _ => cl
    | .ok r => r.1) (CommandLog.newCommandLog p [] 1)
  log.sync

theorem fields_recovered : ∃ s', primaryOfSeven.handleAll [⟨7, 0, .setFields [1] [⟨[2], [3], false⟩]⟩] = .ok s' ∧
    RecoversExactly 7 s'.db ((logOf 7 (s'.log 7)).replayTo OrdMap.empty 0).1 := by
  refine ⟨_, rfl, (@recovers_iff_settled 7 (by decide) primaryOfSeven _
    [⟨7, 0, .setFields [1] [⟨[2], [3], false⟩]⟩] (by decide) ⟨_, rfl, rfl⟩ (fun k _ => rfl) rfl rfl
    (logOf 7 _) rfl ?_ ?_).2 (by decide)⟩
  · unfold Numbered
    decide +kernel
  · decide +kernel

/-- **Bug**: after one `Put` of the key `6b` the replay leaves `6b` itself, outside the partition. -/
theorem replayed_put_leaves_the_partition : ∃ s', primaryOfSeven.handleAll [⟨7, 0, .put [0x6b] [0x76]⟩] = .ok s' ∧
    (logOf 7 (s'.log 7)).readable.map CommandEntry.command = (s'.log 7).map some ∧
    ¬ RecoversExactly 7 s'.db ((logOf 7 (s'.log 7)).replayTo OrdMap.empty 0).1 := by
  refine ⟨_, rfl, by decide +kernel, fun h => ?_⟩
  have hnone := h.2 [0x6b] (by decide)
  revert hnone
  decide +kernel

end RocksKV.Storage
