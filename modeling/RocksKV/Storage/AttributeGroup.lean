import RocksKV.Storage.PartitionManager
/-!
# Attribute groups (`pkg/storage/field_storage.go:511-651`)

| here | there |
| --- | --- |
| `AttributeGroup.encode`  | `AttributeGroup.Encode` (`:518-538`) |
| `decodeAttributeGroup`   | `DecodeAttributeGroup` (`:541-580`) |
| `getGroup`, `setGroup`   | `GetGroup` (`:595-611`), `SetGroup` (`:614-617`) |
| `updateGroupFields`      | `UpdateGroupFields` (`:620-645`) |
| `deleteGroup`            | `DeleteGroup` (`:648-651`) |

A group is one value of the store. `Encode` sorts the names, so it writes the fields in the order in which an `OrdMap`
keeps them; a map that is ranged over in `UpdateGroupFields` has each name once, so any order of its updates gives the
same fields. Reads and writes of RocksDB succeed here.

`bytes.Reader.Read` returns `EOF` at the end of the input even when it is asked for nothing. An empty value is read
that way, so a group whose last field is empty cannot be decoded (`decodeAttributeGroup_encode_iff`), and once it is
stored neither `GetGroup` nor `UpdateGroupFields` works on it (`empty_last_field_lost`).
-/

namespace RocksKV.Storage

open Lib

abbrev Fields := OrdMap Bytes Bytes

structure AttributeGroup where
  name   : Bytes
  fields : Fields
  deriving DecidableEq

def encodeField (field : Bytes × Bytes) : Bytes :=
  be 2 field.1.length ++ field.1 ++ be 4 field.2.length ++ field.2

def AttributeGroup.encode (ag : AttributeGroup) : Bytes :=
  be 4 ag.fields.entries.length ++ ag.fields.entries.flatMap encodeField

/-- One round of the loop. -/
def readField : Decoder (Bytes × Bytes) := do
  let nameLen ← Decoder.word 2
  let name ← Decoder.upTo nameLen
  let valueLen ← Decoder.word 4
  let value ← Decoder.upTo valueLen
  return (name, value)

def readFields : Nat → Fields → Decoder Fields
  | 0, fields => pure fields
  | count + 1, fields => do
    let field ← readField
    readFields count (fields.insert field.1 field.2)

/-- The group has no name yet. -/
def decodeAttributeGroup (data : Bytes) : Except String AttributeGroup :=
  if data.length < 4 then .error "attribute group data too short"
  else
    match (do readFields (← Decoder.word 4) OrdMap.empty : Decoder Fields) data with
    | .error e => .error e.text
    | .ok (fields, _) => .ok { name := [], fields := fields }

section
variable (db : RocksDB) (partitionID : UInt32) (pk : Bytes)

def getGroup (groupName : Bytes) : Except String (Option AttributeGroup) :=
  match db.get (makeFieldKey partitionID pk groupName) with
  | none => .ok none
  | some data => (decodeAttributeGroup data).map fun group => some { group with name := groupName }

def setGroup (group : AttributeGroup) : RocksDB :=
  db.write [.put (makeFieldKey partitionID pk group.name) group.encode]

/-- The store, and the error if any. -/
def updateGroupFields (groupName : Bytes) (updates : Fields) (deletes : List Bytes) : RocksDB × Option String :=
  match getGroup db partitionID pk groupName with
  | .error err => (db, some err)
  | .ok found =>
    let group := found.getD { name := groupName, fields := OrdMap.empty }
    let updated := group.fields.overlay updates.entries
    (setGroup db partitionID pk { group with fields := deletes.foldl OrdMap.erase updated }, none)

def deleteGroup (groupName : Bytes) : RocksDB := db.write [.delete (makeFieldKey partitionID pk groupName)]

end

/-! ## Decoding -/

/-- The lengths fit the words they are written in. -/
def Fields.Fit (fields : Fields) : Prop :=
  ∀ name value, fields.get name = some value → name.length < 2 ^ 16 ∧ value.length < 2 ^ 32

/-- There are less than `2^32` fields, and the last one in the order of the names is not empty. -/
def Fields.Survive (fields : Fields) : Prop :=
  fields.entries.length < 2 ^ 32 ∧ ∀ field, fields.entries.getLast? = some field → field.2 ≠ []

theorem readField_encodeField {field : Bytes × Bytes} (hname : field.1.length < 2 ^ 16) (hvalue : field.2.length < 2 ^ 32)
    (r : Bytes) : readField (encodeField field ++ r) = if field.2 ++ r = [] then .error .eof else .ok (field, r) := by
  have hn : field.1.length % 256 ^ 2 = field.1.length := Nat.mod_eq_of_lt (by norm_num; exact hname)
  have hv : field.2.length % 256 ^ 4 = field.2.length := Nat.mod_eq_of_lt (by norm_num; exact hvalue)
  simp only [encodeField, List.append_assoc, readField]
  rw [Decoder.bind_of_ok (Decoder.word_be _ _ _), hn, Decoder.bind_of_ok (Decoder.upTo_append rfl (by simp [be])),
    Decoder.bind_of_ok (Decoder.word_be _ _ _), hv]
  split_ifs with hend
  · rw [hend]
    rfl
  · rw [Decoder.bind_of_ok (Decoder.upTo_append rfl hend)]
    rfl

/-- **The loop** gets to the end unless the last value is empty. -/
theorem readFields_encode : ∀ {es : List (Bytes × Bytes)} (fields : Fields),
    (∀ e ∈ es, e.1.length < 2 ^ 16 ∧ e.2.length < 2 ^ 32) →
    readFields es.length fields (es.flatMap encodeField) =
      if ∀ e, es.getLast? = some e → e.2 ≠ [] then .ok (fields.overlay es, []) else .error .eof
  | [], fields, _ => by
    rw [if_pos (by simp)]
    rfl
  | [e], fields, h => by
    obtain ⟨hname, hvalue⟩ := h e (by simp)
    have hread := readField_encodeField hname hvalue []
    rw [List.append_nil, List.append_nil] at hread
    rw [List.flatMap_cons, List.flatMap_nil, List.append_nil, List.length_singleton, readFields]
    by_cases he : e.2 = []
    · rw [if_pos he] at hread
      rw [Decoder.bind_of_error hread, if_neg fun hall => hall e rfl he]
    · rw [if_neg he] at hread
      rw [Decoder.bind_of_ok hread, if_pos (by rintro _ ⟨⟩; exact he)]
      rfl
  | e :: e' :: es, fields, h => by
    obtain ⟨hname, hvalue⟩ := h e (by simp)
    have hne : e.2 ++ (e' :: es).flatMap encodeField ≠ [] := by simp [encodeField, be]
    have hread := readField_encodeField hname hvalue ((e' :: es).flatMap encodeField)
    rw [if_neg hne] at hread
    rw [List.flatMap_cons, List.length_cons, readFields, Decoder.bind_of_ok hread,
      readFields_encode _ fun x hx => h x (List.mem_cons_of_mem e hx), List.getLast?_cons_cons]
    rfl

theorem length_insert_le (fields : Fields) (name value : Bytes) :
    (fields.insert name value).entries.length ≤ fields.entries.length + 1 := by
  have hins : ∀ es : List (Bytes × Bytes), (OrdMap.ins name value es).length ≤ es.length + 1 := by
    intro es
    induction es with
    | nil => simp [OrdMap.ins]
    | cons e es ih =>
      unfold OrdMap.ins
      split_ifs
      · simp
      · simp
      · simpa using ih
  exact hins fields.entries

theorem length_of_readFields : ∀ {count : Nat} {fields fields' : Fields} {b rest : Bytes},
    readFields count fields b = .ok (fields', rest) → fields'.entries.length ≤ fields.entries.length + count
  | 0, _, _, _, _, h => by
    cases h
    exact le_rfl
  | count + 1, fields, fields', b, rest, h => by
    obtain ⟨⟨field, b'⟩, -, hrest⟩ := Decoder.bind_eq_ok.1 h
    have hle : fields'.entries.length ≤ (fields.insert field.1 field.2).entries.length + count :=
      length_of_readFields hrest
    have hins := length_insert_le fields field.1 field.2
    omega

theorem readField_fits {b rest : Bytes} {field : Bytes × Bytes} (h : readField b = .ok (field, rest)) :
    field.1.length < 2 ^ 16 ∧ field.2.length < 2 ^ 32 := by
  simp only [readField, Decoder.bind_eq_ok] at h
  obtain ⟨⟨nameLen, b1⟩, hnlen, ⟨name, b2⟩, hname, ⟨valueLen, b3⟩, hvlen, ⟨value, b4⟩, hvalue, heq⟩ := h
  cases heq
  have hn : name.length = nameLen := Decoder.length_of_upTo hname
  have hv : value.length = valueLen := Decoder.length_of_upTo hvalue
  have hnlt : nameLen < 256 ^ 2 := Decoder.word_lt hnlen
  have hvlt : valueLen < 256 ^ 4 := Decoder.word_lt hvlen
  exact ⟨by dsimp only; omega, by dsimp only; omega⟩

theorem readFields_fit : ∀ {count : Nat} {fields fields' : Fields} {b rest : Bytes}, fields.Fit →
    readFields count fields b = .ok (fields', rest) → fields'.Fit
  | 0, _, _, _, _, hfit, h => by
    cases h
    exact hfit
  | count + 1, fields, fields', b, rest, hfit, h => by
    obtain ⟨⟨field, b'⟩, hfield, hrest⟩ := Decoder.bind_eq_ok.1 h
    refine readFields_fit (fun name value hget => ?_) hrest
    rw [OrdMap.get_insert] at hget
    split_ifs at hget with hname
    · cases hget
      rw [hname]
      exact readField_fits hfield
    · exact hfit name value hget

/-- **Whatever is decoded has lengths that fit their words.** -/
theorem decodeAttributeGroup_fit {data : Bytes} {group : AttributeGroup} (h : decodeAttributeGroup data = .ok group) :
    group.fields.Fit := by
  unfold decodeAttributeGroup at h
  split_ifs at h
  split at h
  · cases h
  · rename_i fields rest hread
    cases h
    obtain ⟨⟨count, b⟩, -, hfields⟩ := Decoder.bind_eq_ok.1 hread
    exact readFields_fit (fun name value hget => by cases hget) hfields

theorem overlay_empty (fields : Fields) : OrdMap.empty.overlay fields.entries = fields := by
  refine OrdMap.ext_get fun name => ?_
  rw [OrdMap.get_overlay_sorted name _ fields.sorted, OrdMap.get_empty, Option.or_none]
  rfl

theorem decodeAttributeGroup_encode (ag : AttributeGroup) :
    decodeAttributeGroup ag.encode =
      match readFields (ag.fields.entries.length % 256 ^ 4) OrdMap.empty (ag.fields.entries.flatMap encodeField) with
      | .error e => .error e.text
      | .ok (fields, _) => .ok { name := [], fields := fields } := by
  rw [decodeAttributeGroup, if_neg (by simp [AttributeGroup.encode])]
  rw [AttributeGroup.encode, Decoder.bind_of_ok (Decoder.word_be _ _ _)]

theorem name_of_decode {data : Bytes} {group : AttributeGroup} (h : decodeAttributeGroup data = .ok group) :
    group.name = [] := by
  unfold decodeAttributeGroup at h
  split_ifs at h
  split at h
  · cases h
  · cases h
    rfl

/-- **A group comes back** exactly if it has less than `2^32` fields and the last one is not empty. -/
theorem decodeAttributeGroup_encode_iff {ag : AttributeGroup} (h : ag.fields.Fit) :
    decodeAttributeGroup ag.encode = .ok { name := [], fields := ag.fields } ↔ ag.fields.Survive := by
  rw [decodeAttributeGroup_encode]
  by_cases hcount : ag.fields.entries.length < 2 ^ 32
  · have hmod : ag.fields.entries.length % 256 ^ 4 = ag.fields.entries.length :=
      Nat.mod_eq_of_lt (by norm_num; exact hcount)
    rw [hmod, readFields_encode _ fun e he => h e.1 e.2 (OrdMap.mem_entries.1 he), overlay_empty]
    split_ifs with hlast
    · exact iff_of_true rfl ⟨hcount, hlast⟩
    · exact iff_of_false (fun hc => by cases hc) fun hs => hlast hs.2
  · -- the count that is read is too small
    refine iff_of_false (fun hok => ?_) fun hs => hcount hs.1
    split at hok
    · cases hok
    · rename_i fields rest hread
      have hle := length_of_readFields hread
      rw [← (AttributeGroup.mk.inj (Except.ok.inj hok)).2] at hcount
      have hlt := Nat.mod_lt ag.fields.entries.length (y := 256 ^ 4) (by norm_num)
      rw [OrdMap.empty, List.length_nil] at hle
      omega

/-! ## Calls on one group -/

inductive GroupOp
  | setGroup (fields : Fields)
  | updateGroupFields (updates : Fields) (deletes : List Bytes)
  | deleteGroup

namespace GroupOp

/-- What the call is for; `none` is a group that does not exist. -/
def apply (group : Option Fields) : GroupOp → Option Fields
  | setGroup fields => some fields
  | updateGroupFields updates deletes =>
    some (deletes.foldl OrdMap.erase ((group.getD OrdMap.empty).overlay updates.entries))
  | deleteGroup => none

/-- The store after the call. -/
def exec (partitionID : UInt32) (pk name : Bytes) (db : RocksDB) : GroupOp → RocksDB
  | setGroup fields => Storage.setGroup db partitionID pk ⟨name, fields⟩
  | updateGroupFields updates deletes => (Storage.updateGroupFields db partitionID pk name updates deletes).1
  | deleteGroup => Storage.deleteGroup db partitionID pk name

/-- The lengths of what the call sets fit their words. -/
def Fit : GroupOp → Prop
  | setGroup fields => fields.Fit
  | updateGroupFields updates _ => updates.Fit
  | deleteGroup => True

end GroupOp

theorem get_foldl_erase (name : Bytes) : ∀ (deletes : List Bytes) (fields : Fields),
    (deletes.foldl OrdMap.erase fields).get name = if name ∈ deletes then none else fields.get name
  | [], fields => by simp
  | d :: deletes, fields => by
    rw [List.foldl_cons, get_foldl_erase name deletes, OrdMap.get_erase]
    by_cases hd : name = d
    · simp [hd]
    · simp [hd]

/-- **The fields after an update**: those that are not deleted, with their new value if they have one. -/
theorem get_apply_update (group : Option Fields) (updates : Fields) (deletes : List Bytes) (name : Bytes) :
    ((GroupOp.updateGroupFields updates deletes).apply group).bind (fun fields => fields.get name) =
      if name ∈ deletes then none else (updates.get name).or (group.bind fun fields => fields.get name) := by
  rw [GroupOp.apply, Option.bind_some, get_foldl_erase, OrdMap.get_overlay_sorted name _ updates.sorted]
  cases group <;> rfl

theorem GroupOp.fit_apply {op : GroupOp} (hop : op.Fit) {group : Option Fields} (hgroup : ∀ fields ∈ group, fields.Fit) :
    ∀ fields ∈ op.apply group, fields.Fit := by
  rintro fields hfields
  cases op with
  | setGroup new =>
    cases hfields
    exact hop
  | updateGroupFields updates deletes =>
    intro name value hget
    have hnew := get_apply_update group updates deletes name
    rw [hfields, Option.bind_some, hget] at hnew
    split_ifs at hnew
    cases hu : updates.get name with
    | some new =>
      rw [hu] at hnew
      cases hnew
      exact hop name value hu
    | none =>
      rw [hu, Option.none_or] at hnew
      obtain ⟨old, hold, hvalue⟩ := Option.bind_eq_some_iff.1 hnew.symm
      exact hgroup old hold name value hvalue
  | deleteGroup => cases hfields

/-- The stored value is read as this group. -/
def HoldsGroup (db : RocksDB) (p : UInt32) (pk name : Bytes) (group : Option Fields) : Prop :=
  getGroup db p pk name = .ok (group.map fun fields => ⟨name, fields⟩)

theorem HoldsGroup.fit {db : RocksDB} {p : UInt32} {pk name : Bytes} {group : Option Fields}
    (h : HoldsGroup db p pk name group) : ∀ fields ∈ group, fields.Fit := by
  rintro fields ⟨⟩
  unfold HoldsGroup getGroup at h
  split at h
  · cases h
  · rename_i data hdata
    cases hdecode : decodeAttributeGroup data with
    | error e =>
      rw [hdecode] at h
      cases h
    | ok read =>
      rw [hdecode] at h
      cases h
      exact decodeAttributeGroup_fit hdecode

/-- **A call on a group that can be read** stores the encoding of the new one. -/
theorem GroupOp.get_exec {db : RocksDB} {p : UInt32} {pk name : Bytes} {group : Option Fields} (op : GroupOp)
    (h : HoldsGroup db p pk name group) :
    (op.exec p pk name db).get (makeFieldKey p pk name) =
      (op.apply group).map fun fields => AttributeGroup.encode ⟨name, fields⟩ := by
  cases op with
  | setGroup fields => exact OrdMap.get_insert_self _ _ _
  | updateGroupFields updates deletes =>
    rw [exec, Storage.updateGroupFields, h]
    cases group <;> exact OrdMap.get_insert_self _ _ _
  | deleteGroup =>
    change (db.erase (makeFieldKey p pk name)).get (makeFieldKey p pk name) = none
    rw [OrdMap.get_erase, if_pos rfl]

/-- **One call**: the new group can be read exactly if it survives. -/
theorem GroupOp.holdsGroup_exec_iff {db : RocksDB} {p : UInt32} {pk name : Bytes} {group : Option Fields} {op : GroupOp}
    (h : HoldsGroup db p pk name group) (hfit : ∀ fields ∈ op.apply group, fields.Fit) :
    HoldsGroup (op.exec p pk name db) p pk name (op.apply group) ↔ ∀ fields ∈ op.apply group, fields.Survive := by
  have hget := op.get_exec h
  rw [HoldsGroup, getGroup, hget]
  cases hnew : op.apply group with
  | none => exact iff_of_true rfl fun fields hf => by cases hf
  | some fields =>
    have hround := @decodeAttributeGroup_encode_iff ⟨name, fields⟩ (hfit fields hnew)
    simp only [Option.map_some, Option.mem_def, Option.some.injEq, forall_eq', ← hround]
    cases hdecode : decodeAttributeGroup (AttributeGroup.encode ⟨name, fields⟩) with
    | error e => exact iff_of_false (fun hc => by cases hc) fun hc => by cases hc
    | ok read =>
      obtain ⟨readName, readFields⟩ := read
      obtain rfl : readName = [] := name_of_decode hdecode
      simp [Except.map]

/-- The first call, and those after it. -/
theorem forall_calls_succ {n : Nat} {P : Nat → Prop} :
    (∀ k, 0 < k → k ≤ n + 1 → P k) ↔ P 1 ∧ ∀ k, 0 < k → k ≤ n → P (k + 1) := by
  constructor
  · intro h
    exact ⟨h 1 (by omega) (by omega), fun k hpos hle => h (k + 1) (by omega) (by omega)⟩
  · rintro ⟨hone, hrest⟩ k hpos hle
    obtain rfl | hlt : k = 1 ∨ 1 < k := by omega
    · exact hone
    · have hk := hrest (k - 1) (by omega) (by omega)
      rwa [Nat.sub_add_cancel hpos] at hk

/-- **Calls on one group**: `GetGroup` keeps returning what the calls so far amount to, exactly if each of these groups
survives. -/
theorem holdsGroup_calls_iff {p : UInt32} {pk name : Bytes} : ∀ {calls : List GroupOp} {db : RocksDB}
    {group : Option Fields}, HoldsGroup db p pk name group → (∀ op ∈ calls, op.Fit) →
    ((∀ k, 0 < k → k ≤ calls.length →
        HoldsGroup ((calls.take k).foldl (GroupOp.exec p pk name) db) p pk name ((calls.take k).foldl GroupOp.apply group)) ↔
      ∀ k, 0 < k → k ≤ calls.length → ∀ fields ∈ (calls.take k).foldl GroupOp.apply group, fields.Survive)
  | [], _, _, _, _ => by
    refine iff_of_true ?_ ?_ <;> intro k hpos hle <;> exact absurd hle (by simp; omega)
  | op :: calls, db, group, h, hcalls => by
    have hnew := GroupOp.fit_apply (hcalls op List.mem_cons_self) h.fit
    have hone := GroupOp.holdsGroup_exec_iff h hnew
    have hrest : ∀ op' ∈ calls, op'.Fit := fun op' hop' => hcalls op' (List.mem_cons_of_mem op hop')
    rw [List.length_cons, forall_calls_succ, forall_calls_succ]
    exact (and_congr_left' hone).trans (and_congr_right fun hsurvives =>
      holdsGroup_calls_iff (hone.2 hsurvives) hrest)

/-- **Attribute groups round-trip** exactly if they survive; and `GetGroup` returns what the calls on a group amount to
exactly if after every call the group survives. -/
theorem attribute_groups_roundtrip_iff {ag : AttributeGroup} (hag : ag.fields.Fit) {db : RocksDB} {p : UInt32}
    {pk name : Bytes} {group : Option Fields} {calls : List GroupOp} (hdb : HoldsGroup db p pk name group)
    (hcalls : ∀ op ∈ calls, op.Fit) :
    (decodeAttributeGroup ag.encode = .ok { name := [], fields := ag.fields } ↔ ag.fields.Survive) ∧
    ((∀ k, 0 < k → k ≤ calls.length →
        HoldsGroup ((calls.take k).foldl (GroupOp.exec p pk name) db) p pk name
          ((calls.take k).foldl GroupOp.apply group)) ↔
      ∀ k, 0 < k → k ≤ calls.length → ∀ fields ∈ (calls.take k).foldl GroupOp.apply group, fields.Survive) :=
  ⟨decodeAttributeGroup_encode_iff hag, holdsGroup_calls_iff hdb hcalls⟩

/-- A group of two fields, the last of them not empty. -/
def profile : Fields := (OrdMap.empty.insert [1] []).insert [2] [3]

theorem fit_profile : profile.Fit := by
  intro name value hget
  rcases List.mem_cons.1 (OrdMap.mem_entries.2 hget) with h | h
  · cases h
    decide
  · cases List.mem_singleton.1 h
    decide

theorem survive_profile : profile.Survive := ⟨by decide, by decide⟩

theorem attribute_groups_roundtrip_profile :
    decodeAttributeGroup (AttributeGroup.encode ⟨[103], profile⟩) = .ok ⟨[], profile⟩ ∧
    getGroup (setGroup OrdMap.empty 7 [1] ⟨[103], profile⟩) 7 [1] [103] = .ok (some ⟨[103], profile⟩) := by
  have hfit : ∀ op ∈ [GroupOp.setGroup profile], op.Fit := by
    rintro op hop
    rw [List.mem_singleton.1 hop]
    exact fit_profile
  have h := @attribute_groups_roundtrip_iff ⟨[103], profile⟩ fit_profile OrdMap.empty 7 [1] [103] none
    [.setGroup profile] rfl hfit
  refine ⟨h.1.2 survive_profile, h.2.2 (fun k hpos hle fields hfields => ?_) 1 (by decide) (by decide)⟩
  obtain rfl : k = 1 := by
    rw [List.length_singleton] at hle
    omega
  cases hfields
  exact survive_profile

/-- **Bug**: a group with one field, which is empty, is stored; it can neither be read nor updated any more. -/
theorem empty_last_field_lost :
    getGroup (setGroup OrdMap.empty 7 [1] ⟨[103], OrdMap.empty.insert [97] []⟩) 7 [1] [103] = .error "EOF" ∧
    updateGroupFields (setGroup OrdMap.empty 7 [1] ⟨[103], OrdMap.empty.insert [97] []⟩) 7 [1] [103]
        (OrdMap.empty.insert [98] [1]) [] =
      (setGroup OrdMap.empty 7 [1] ⟨[103], OrdMap.empty.insert [97] []⟩, some "EOF") := by
  decide +kernel

end RocksKV.Storage
