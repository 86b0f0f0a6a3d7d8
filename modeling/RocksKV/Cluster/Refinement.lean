import RocksKV.Cluster.Requests
/-!
# The cluster is a key-value store

Every run of requests is a run of `Store`, whatever nodes the partitions are on, whatever the disks refuse, and in
whatever order a batch goes through its groups (`cluster_refines_store`).
-/

namespace RocksKV.Cluster

open Lib Storage Compute

section
variable {sum64 : Bytes → UInt64} {table : RouteTable}

/-! ## Batches -/

theorem for_itemChanges {p : UInt32} {items : List KeyValueItem}
    (hitems : ∀ item ∈ items, ¬ FieldShaped item.key ∧ calculatePartition sum64 item.key = p) :
    For sum64 p (itemChanges items) := by
  intro c hc
  obtain ⟨item, hitem, rfl⟩ := List.mem_map.1 hc
  exact hitems item hitem

/-- **A goroutine of a batch** reports an error and leaves the store alone, or its group is stored. -/
theorem runCall_contents {fails : String → Option String} {disk : UInt32 → Disk} (st : BatchState) {call : GroupCall}
    (hrouted : Routed sum64 table call) (hshapes : ∀ item ∈ call.items, ¬ FieldShaped item.key) :
    (∃ err, (runCall fails disk st call).nodes = st.nodes ∧ (runCall fails disk st call).errCh = st.errCh ++ [err] ∧
        (runCall fails disk st call).count = st.count) ∨
      fails call.nodeID = none ∧
        contentsOf sum64 table (fun n => ((runCall fails disk st call).nodes n).db) =
          (contentsOf sum64 table fun n => (st.nodes n).db).apply (itemChanges call.items) ∧
        (runCall fails disk st call).errCh = st.errCh ∧
        (runCall fails disk st call).count = st.count + Int32.ofNat call.items.length := by
  obtain ⟨replica, hroute⟩ := hrouted.route
  have hserve : (st.nodes call.nodeID).batchPut (disk call.partitionID) call.partitionID call.epoch call.items =
      (st.nodes call.nodeID).serve (disk call.partitionID) ⟨call.partitionID, call.epoch, .batchPut call.items⟩ := rfl
  unfold runCall doBatchPut
  cases hup : fails call.nodeID with
  | some err => exact .inl ⟨err, rfl, rfl, rfl⟩
  | none =>
    dsimp only
    rw [hserve]
    rcases contentsOf_serve (disk call.partitionID) ⟨call.partitionID, call.epoch, .batchPut call.items⟩ hroute
      (for_itemChanges fun item hitem => ⟨hshapes item hitem, hrouted.items item hitem⟩) with
      ⟨⟨e, hrefused⟩, hsame⟩ | ⟨haccepted, hcontents⟩
    · rw [hrefused, hsame]
      exact .inl ⟨_, rfl, rfl, rfl⟩
    · rw [haccepted]
      exact .inr ⟨rfl, hcontents, rfl, rfl⟩

theorem errCh_runCalls {fails : String → Option String} {disk : UInt32 → Disk} : ∀ (calls : List GroupCall)
    (st : BatchState), st.errCh <+: (calls.foldl (runCall fails disk) st).errCh
  | [], _ => List.prefix_rfl
  | call :: calls, st => by
    refine List.IsPrefix.trans ?_ (errCh_runCalls calls (runCall fails disk st call))
    unfold runCall
    split
    · exact List.prefix_append _ _
    · exact List.prefix_rfl

/-- **The goroutines of a batch**, in the order they run: some of the groups are stored, all of them if there is no
error, and none whose call got no answer. -/
theorem runCalls_contents {fails : String → Option String} {disk : UInt32 → Disk} :
    ∀ {calls : List GroupCall} (st : BatchState),
      (∀ call ∈ calls, Routed sum64 table call ∧ ∀ item ∈ call.items, ¬ FieldShaped item.key) →
      ∃ stored : List GroupCall, stored.Sublist (calls.filter fun call => !(fails call.nodeID).isSome) ∧
        contentsOf sum64 table (fun n => ((calls.foldl (runCall fails disk) st).nodes n).db) =
          (contentsOf sum64 table fun n => (st.nodes n).db).apply (itemChanges (stored.flatMap (·.items))) ∧
        ((calls.foldl (runCall fails disk) st).errCh = [] → stored = calls ∧
          (calls.foldl (runCall fails disk) st).count = st.count + Int32.ofNat (stored.flatMap (·.items)).length)
  | [], st, _ => ⟨[], List.Sublist.refl _, rfl, fun _ => ⟨rfl, (Int32.add_zero _).symm⟩⟩
  | call :: calls, st, hcalls => by
    obtain ⟨hrouted, hshapes⟩ := hcalls call List.mem_cons_self
    obtain ⟨stored, hsub, hcontents, hdone⟩ := @runCalls_contents fails disk calls (runCall fails disk st call)
      fun c hc => hcalls c (List.mem_cons_of_mem _ hc)
    rw [List.foldl_cons]
    rcases @runCall_contents _ _ fails disk st _ hrouted hshapes with ⟨err, hnodes, herr, -⟩ | ⟨hup, hcall, -, hcount⟩
    · refine ⟨stored, hsub.trans ((List.sublist_cons_self _ _).filter _), ?_, fun hnone => ?_⟩
      · rw [hcontents, hnodes]
      · have hpre := @errCh_runCalls fails disk calls (runCall fails disk st call)
        rw [hnone, List.prefix_nil, herr] at hpre
        exact absurd hpre (by simp)
    · refine ⟨call :: stored, ?_, ?_, fun hnone => ?_⟩
      · rw [List.filter_cons_of_pos (by simp [hup])]
        exact hsub.cons_cons call
      · rw [hcontents, hcall, ← apply_append, ← itemChanges_append, List.flatMap_cons]
      · obtain ⟨hall, htotal⟩ := hdone hnone
        refine ⟨by rw [hall], ?_⟩
        rw [htotal, hcount, List.flatMap_cons, List.length_append, Int32.ofNat_add, Int32.add_assoc]

/-- The calls that are started are for groups of the batch, each for another. -/
theorem calls_subperm {order : List (UInt32 × List KeyValueItem) → List (UInt32 × List KeyValueItem)}
    {schedule : List GroupCall → List GroupCall} (horder : ∀ groups, (order groups).Perm groups)
    (hschedule : ∀ calls, (schedule calls).Perm calls) (items : List KeyValueItem) :
    ((batchCalls sum64 table order schedule items).1.map fun call => (call.partitionID, call.items)).Subperm
      (groupItems sum64 items).entries := by
  have hstart : ∀ gs : List (UInt32 × List KeyValueItem),
      ((startCalls table gs).1.map fun call => (call.partitionID, call.items)) <+: gs := by
    intro gs
    induction gs with
    | nil => exact List.prefix_rfl
    | cons g gs ih =>
      unfold startCalls
      cases getPartitionNodesByID table g.1 with
      | error err => exact List.nil_prefix
      | ok route => exact List.cons_prefix_cons.2 ⟨rfl, ih⟩
  exact ((hschedule _).map _).subperm.trans ((hstart _).sublist.subperm.trans (horder _).subperm)

theorem routed_of_started {order : List (UInt32 × List KeyValueItem) → List (UInt32 × List KeyValueItem)}
    {schedule : List GroupCall → List GroupCall} (horder : ∀ groups, (order groups).Perm groups)
    (hschedule : ∀ calls, (schedule calls).Perm calls) {items : List KeyValueItem} {call : GroupCall}
    (hcall : call ∈ (batchCalls sum64 table order schedule items).1) :
    Routed sum64 table call ∧ ∀ item ∈ call.items, item ∈ items := by
  have hroute : ∀ gs : List (UInt32 × List KeyValueItem), ∀ c ∈ (startCalls table gs).1,
      ∃ replica, getPartitionNodesByID table c.partitionID = .ok (c.nodeID, replica, c.epoch) := by
    intro gs
    induction gs with
    | nil => exact fun c hc => absurd hc List.not_mem_nil
    | cons g gs ih =>
      unfold startCalls
      cases hg : getPartitionNodesByID table g.1 with
      | error err => exact fun c hc => absurd hc List.not_mem_nil
      | ok route =>
        rintro c (_ | ⟨_, hc⟩)
        · exact ⟨route.2.1, hg⟩
        · exact ih c hc
  have hgroup := (calls_subperm horder hschedule items).subset
    (List.mem_map_of_mem (f := fun call => (call.partitionID, call.items)) hcall)
  have hitems := eq_filter_of_mem_groupBy hgroup
  refine ⟨⟨hroute _ call ((hschedule _).mem_iff.1 hcall), fun item hitem => ?_⟩, fun item hitem => ?_⟩
  · rw [hitems] at hitem
    simpa using (List.mem_filter.1 hitem).2
  · rw [hitems] at hitem
    exact (List.mem_filter.1 hitem).1

/-- Items of different partitions change different cells, so the order of the groups does not matter. -/
theorem apply_batchCalls {env : Env} {items : List KeyValueItem}
    (hroutes : (batchCalls sum64 table env.order env.schedule items).2 = none) (m : Contents) :
    m.apply (itemChanges ((batchCalls sum64 table env.order env.schedule items).1.flatMap (·.items))) =
      m.apply (itemChanges items) := by
  unfold Contents.apply itemChanges
  rw [List.foldl_map, List.foldl_map]
  refine foldl_batchCalls env.order_perm env.schedule_perm hroutes (fun m a b hne => ?_) m
  refine Function.update_comm (fun heq => hne ?_) _ _ _
  exact congrArg (calculatePartition sum64) (Cell.plain.inj heq)

theorem length_batchCalls {env : Env} {items : List KeyValueItem}
    (hroutes : (batchCalls sum64 table env.order env.schedule items).2 = none) :
    ((batchCalls sum64 table env.order env.schedule items).1.flatMap (·.items)).length = items.length := by
  have hcounted := foldl_batchCalls env.order_perm env.schedule_perm hroutes (f := fun n _ => n + 1) (fun _ _ _ _ => rfl) 0
  simpa using hcounted

theorem subperm_map {α β : Type} {as bs : List α} (f : α → β) (h : as.Subperm bs) : (as.map f).Subperm (bs.map f) := by
  obtain ⟨l, hperm, hsub⟩ := h
  exact ⟨l.map f, hperm.map f, hsub.map f⟩

theorem next_batchFailed {s : State} {env : Env} {items : List KeyValueItem} {stored : List GroupCall} {nodes : Nodes}
    (err : String)
    (hsub : stored.Sublist ((batchCalls sum64 table env.order env.schedule items).1.filter
      fun call => !(env.fails 0 call.nodeID).isSome))
    (hcontents : contentsOf sum64 table (fun n => (nodes n).db) =
      (contentsOf sum64 table fun n => (s.nodes n).db).apply (itemChanges (stored.flatMap (·.items)))) :
    Store.Next (calculatePartition sum64) (s.store sum64 table) (.batchPut items (.error err))
      (State.store sum64 table
        { nodes := nodes
          unanswered := s.unanswered ++
            lostCalls (env.fails 0) (batchCalls sum64 table env.order env.schedule items).1 }) := by
  set calls := (batchCalls sum64 table env.order env.schedule items).1 with hcalls
  set lost := calls.filter fun call => (env.fails 0 call.nodeID).isSome with hlost
  have hgroups : (stored.map (·.items) ++ lost.map (·.items)).Subperm (groups (calculatePartition sum64) items) := by
    have hsubperm : (stored ++ lost).Subperm calls := by
      refine (hsub.append_right _).subperm.trans ?_
      exact (List.perm_append_comm.trans (List.filter_append_perm _ _)).subperm
    have hmapped := (subperm_map (fun call => (call.partitionID, call.items)) hsubperm).trans
      (calls_subperm env.order_perm env.schedule_perm items)
    rw [← List.map_append]
    have hitems := subperm_map (·.2) hmapped
    rwa [List.map_map] at hitems
  have hstore : State.store sum64 table { nodes := nodes, unanswered := s.unanswered ++ lostCalls (env.fails 0) calls } =
      { contents := (s.store sum64 table).contents.apply (itemChanges (stored.map (·.items)).flatten)
        unsettled := (s.store sum64 table).unsettled ++ (lost.map (·.items)).map itemChanges } := by
    simp only [State.store, lostCalls, hcontents, List.flatMap_def, List.map_append, List.map_map]
    rfl
  rw [hstore]
  exact .batchFailed _ _ hgroups

/-- **A batch** is a batch of the store. -/
theorem next_batchPut {s : State} {env : Env} {items : List KeyValueItem} (hitems : ∀ item ∈ items, ¬ FieldShaped item.key) :
    Store.Next (calculatePartition sum64) (s.store sum64 table) (s.request sum64 table env (.batchPut items)).2
      ((s.request sum64 table env (.batchPut items)).1.store sum64 table) := by
  obtain ⟨stored, hsub, hcontents, hdone⟩ := @runCalls_contents sum64 table (env.fails 0) env.disk
    (batchCalls sum64 table env.order env.schedule items).1 { nodes := s.nodes, errCh := [], count := 0 } fun call hcall =>
      have hstarted := routed_of_started env.order_perm env.schedule_perm hcall
      ⟨hstarted.1, fun item hitem => hitems item (hstarted.2 item hitem)⟩
  simp only [State.request, Compute.batchPut, runCalls]
  cases hroutes : (batchCalls sum64 table env.order env.schedule items).2 with
  | some err => exact next_batchFailed err hsub hcontents
  | none =>
    cases herr : ((batchCalls sum64 table env.order env.schedule items).1.foldl (runCall (env.fails 0) env.disk)
      { nodes := s.nodes, errCh := [], count := 0 }).errCh with
    | cons err errs => exact next_batchFailed _ hsub hcontents
    | nil =>
      obtain ⟨hall, hcount⟩ := hdone herr
      rw [hall] at hsub hcontents hcount
      have hlost : lostCalls (env.fails 0) (batchCalls sum64 table env.order env.schedule items).1 = [] := by
        have hanswered := List.filter_eq_self.1 (hsub.antisymm (List.filter_sublist)).symm
        rw [lostCalls, List.filter_eq_nil_iff.2 fun call hcall => by simpa using hanswered call hcall]
        rfl
      rw [length_batchCalls hroutes, Int32.zero_add] at hcount
      rw [apply_batchCalls hroutes] at hcontents
      simp only [hlost, hcount, List.append_nil, State.store, hcontents]
      exact .batchPut

/-! ## Runs -/

theorem callsRouted_lostCalls {env : Env} {items : List KeyValueItem} (hitems : ∀ item ∈ items, ¬ FieldShaped item.key) :
    CallsRouted sum64 table (lostCalls (env.fails 0) (batchCalls sum64 table env.order env.schedule items).1) := by
  intro call hcall
  obtain ⟨group, hgroup, rfl⟩ := List.mem_map.1 hcall
  obtain ⟨hrouted, hmem⟩ := routed_of_started env.order_perm env.schedule_perm (List.mem_filter.1 hgroup).1
  exact ⟨hrouted.route, for_itemChanges fun item hitem => ⟨hitems item (hmem item hitem), hrouted.items item hitem⟩⟩

/-- A call that is served late. -/
theorem next_late {part : Bytes → UInt32} {s s' : State} {i : Nat} {disk : Disk}
    (hcalls : CallsRouted sum64 table s.unanswered) (hstep : storeStep sum64 table s (.late i disk) = some s') :
    Store.Next part (s.store sum64 table) .settle (s'.store sum64 table) := by
  unfold storeStep at hstep
  dsimp only at hstep
  split at hstep
  · cases hstep
  · rename_i node req hi
    cases hstep
    obtain ⟨⟨replica, hroute⟩, hfor⟩ := hcalls _ (List.mem_of_getElem? hi)
    have hunsettled : (s.store sum64 table).unsettled[i]? = some (changes req.op) := by
      rw [State.store, List.getElem?_map, hi]
      rfl
    rcases @contentsOf_serve sum64 table s.nodes _ _ disk req hroute hfor with ⟨-, hsame⟩ | ⟨-, hcontents⟩
    · have hstore : State.store sum64 table
          { nodes := Function.update s.nodes node ((s.nodes node).serve disk req).1
            unanswered := s.unanswered.eraseIdx i } =
          { s.store sum64 table with unsettled := (s.store sum64 table).unsettled.eraseIdx i } := by
        simp only [hsame, State.store, List.eraseIdx_map]
      rw [hstore]
      exact .refused
    · have hstore : State.store sum64 table
          { nodes := Function.update s.nodes node ((s.nodes node).serve disk req).1
            unanswered := s.unanswered.eraseIdx i } =
          { contents := (s.store sum64 table).contents.apply (changes req.op)
            unsettled := (s.store sum64 table).unsettled.eraseIdx i } := by
        simp only [State.store, hcontents, List.eraseIdx_map]
      rw [hstore]
      exact .happened hunsettled

theorem for_fields {pk : Bytes} (h : pk.length < 2 ^ 32) (fields : List FieldUpdate) :
    For sum64 (calculatePartition sum64 pk) (changes (.setFields pk fields)) := by
  intro c hc
  obtain ⟨u, -, rfl⟩ := List.mem_map.1 hc
  exact ⟨h, rfl⟩

theorem for_single {c : Change} (h : c.1.Proper) : For sum64 (calculatePartition sum64 c.1.owner) [c] := by
  intro d hd
  obtain rfl := List.mem_singleton.1 hd
  exact ⟨h, rfl⟩

/-- **One request** is a step of the store with the request's answer. -/
theorem next_request {s : State} {env : Env} {req : Request} (hallowed : Allowed sum64 table s (.request env req)) :
    Store.Next (calculatePartition sum64) (s.store sum64 table) (s.request sum64 table env req).2
      ((s.request sum64 table env req).1.store sum64 table) := by
  cases req with
  | put key value =>
    exact next_written s env key (.put key value) "put failed" _ (for_single (c := (.plain key, some value)) hallowed)
  | delete key =>
    exact next_written s env key (.delete key) "delete failed" _ (for_single (c := (.plain key, none)) hallowed)
  | setField pk name value =>
    exact next_written s env pk (.setFields pk [⟨name, value, false⟩]) "set_field failed" _ (for_fields hallowed _)
  | setFields pk fields =>
    exact next_written s env pk (.setFields pk fields) "set_fields failed" _ (for_fields hallowed fields)
  | deleteField pk name =>
    exact next_written s env pk (.deleteField pk name) "delete_field failed" _
      (for_single (c := (.field pk name, none)) hallowed)
  | batchPut items => exact next_batchPut hallowed
  | get key =>
    simp only [State.request]
    cases hget : Compute.get sum64 table s.nodes (env.fails 0) key with
    | error e => exact .getFailed
    | ok value =>
      obtain rfl := get_direct hallowed.1 hallowed.2 hget
      exact .get
  | getField pk name =>
    simp only [State.request]
    cases hget : Compute.getField sum64 table s.nodes (env.fails 0) pk name with
    | error e => exact .getFieldFailed
    | ok value =>
      obtain rfl := getField_direct hallowed.1 hallowed.2 hget
      exact .getField
  | getAllFields pk =>
    simp only [State.request]
    cases hget : Compute.getAllFields sum64 table s.nodes (env.fails 0) pk with
    | error e => exact .getAllFieldsFailed
    | ok fields => exact .getAllFields (getAllFields_direct hallowed.1 hallowed.2 hget)
  | batchGet keys => exact .batchGet (batchGet_direct hallowed)

theorem unanswered_written {s : State} {env : Env} {key : Bytes} {op : WriteOp} {r : Except String Nodes}
    (hcalls : CallsRouted sum64 table s.unanswered) (hfor : For sum64 (calculatePartition sum64 key) (changes op)) :
    CallsRouted sum64 table (s.written sum64 table env key op r).1.unanswered := by
  cases r with
  | ok nodes => exact hcalls
  | error e => exact hcalls.append (callsRouted_lostCall hfor)

theorem callsRouted_step {s s' : State} {a : StoreAct} (hcalls : CallsRouted sum64 table s.unanswered)
    (hallowed : Allowed sum64 table s a) (hstep : storeStep sum64 table s a = some s') :
    CallsRouted sum64 table s'.unanswered := by
  cases a with
  | late i disk =>
    unfold storeStep at hstep
    dsimp only at hstep
    split at hstep
    · cases hstep
    · cases hstep
      exact fun call hcall => hcalls call (List.mem_of_mem_eraseIdx hcall)
  | request env req =>
    cases hstep
    cases req with
    | put key value => exact unanswered_written hcalls (for_single (c := (.plain key, some value)) hallowed)
    | delete key => exact unanswered_written hcalls (for_single (c := (.plain key, none)) hallowed)
    | setField pk name value => exact unanswered_written hcalls (for_fields hallowed _)
    | setFields pk fields => exact unanswered_written hcalls (for_fields hallowed fields)
    | deleteField pk name => exact unanswered_written hcalls (for_single (c := (.field pk name, none)) hallowed)
    | batchPut items => exact hcalls.append (callsRouted_lostCalls hallowed)
    | get _ | getField _ _ | getAllFields _ | batchGet _ => exact hcalls

theorem simulates {s s' : State} {as : List StoreAct} (hstart : s.unanswered = [])
    (hallowed : Along (storeStep sum64 table) (Allowed sum64 table) s as)
    (hrun : run (storeStep sum64 table) s as = some s') :
    Steps (Store.Next (calculatePartition sum64)) (s.store sum64 table)
      (trace (storeStep sum64 table) (storeEvents sum64 table) s as) (s'.store sum64 table) := by
  refine steps_of_run (P := fun s => CallsRouted sum64 table s.unanswered)
    (fun s a s' hs hc hstep => callsRouted_step hs hc hstep) (fun s a s' hs hc hstep => ?_) ?_ hallowed hrun
  · cases a with
    | late i disk => exact .single (next_late hs hstep)
    | request env req =>
      cases hstep
      exact .single (next_request hc)
  · rw [hstart]
    exact fun call hcall => absurd hcall List.not_mem_nil

/-- **Reads see the last acknowledged write.** After any run, a get that the primary answers, of a key that no failed
write names, returns what the acknowledged writes of the run have left, and what was there before if there is none. -/
theorem get_last_acknowledged {s s' : State} {as : List StoreAct} (hstart : s.unanswered = [])
    (hallowed : Along (storeStep sum64 table) (Allowed sum64 table) s as)
    (hrun : run (storeStep sum64 table) s as = some s') {key : Bytes} {fails : String → Option String}
    (hsure : ∀ e ∈ trace (storeStep sum64 table) (storeEvents sum64 table) s as, ¬ e.Doubts (.plain key))
    (hkey : ¬ FieldShaped key) (hdirect : Direct sum64 table s'.nodes fails key) {value : Option Bytes}
    (hget : Compute.get sum64 table s'.nodes fails key = .ok value) :
    value = (s.store sum64 table).contents.apply
      ((trace (storeStep sum64 table) (storeEvents sum64 table) s as).flatMap Event.acknowledged) (.plain key) := by
  rw [get_direct hkey hdirect hget]
  refine contents_of_steps (simulates hstart hallowed hrun) ?_ hsure
  rw [Settled, State.store, hstart]
  exact fun cs hcs => absurd hcs List.not_mem_nil

end

/-- A compute server whose calls are all answered. -/
def Env.answered : Env where
  fails _ _ := none
  disk _ := .working
  order := id
  order_perm _ := .refl _
  schedule := id
  schedule_perm _ := .refl _

/-- One that gets no answer. -/
def Env.timedOut : Env := { Env.answered with fails := fun _ _ => some "storage put failed: timeout" }

def tableOfTwo : RouteTable := ⟨1, RouteTable.apply .empty [routeOf 7, routeOf 8]⟩

/-- A put that times out, and is served later. -/
def timedOutRun : List StoreAct :=
  [.request .answered (.put keyOfSeven [1]), .request .timedOut (.put keyOfSeven [2]),
    .request .answered (.get keyOfSeven), .late 0 .working, .request .answered (.get keyOfSeven)]

/-- The put that times out is of another key. -/
theorem get_last_acknowledged_eight : ∃ s', run (storeStep sum64OfTwo tableOfTwo) ⟨fun _ => primaryOfTwo, []⟩
    [.request .answered (.put keyOfEight [3]), .request .timedOut (.put keyOfSeven [2])] = some s' ∧
      ∀ value, Compute.get sum64OfTwo tableOfTwo s'.nodes (fun _ => none) keyOfEight = .ok value → value = some [3] :=
  ⟨_, rfl, fun _ hget => (@get_last_acknowledged sum64OfTwo tableOfTwo ⟨fun _ => primaryOfTwo, []⟩ _
    [.request .answered (.put keyOfEight [3]), .request .timedOut (.put keyOfSeven [2])] rfl (by decide) rfl keyOfEight
    _ (by decide) (by decide) (by decide) _ hget).trans rfl⟩

end RocksKV.Cluster
