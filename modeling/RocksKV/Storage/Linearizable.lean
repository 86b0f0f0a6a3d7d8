import RocksKV.Lib.Simulation
import RocksKV.Storage.WriteCalls
/-!
# Concurrent write requests (`pkg/storage/server.go:354-416` and its siblings)

`Server.serve` takes a write request for one step, and the models of the cluster take over that step. The handlers make
it in several (`Storage.WriteCalls`), side by side with others. `writes_linearizable` says when that makes no difference to
the store and to the answers: if route updates, `ExportSST`, `IngestSST` and the loss of the lease fall only where no
handler is between its first check and its write. Then each request takes effect at one moment of its call, with the
answer `serve` gives at that moment: when it is written to RocksDB, or when a check refuses it.

The log is left out, for a reason: it is appended to after the write, in an order of its own.
-/

namespace RocksKV.Storage

open Lib

/-- What the answers depend on. -/
structure NodeState where
  pm       : PartitionManager
  canWrite : Bool

def Server.state (s : Server) : NodeState := ⟨s.pm, s.canWrite⟩

inductive NodeEvent
  | served (i : Nat) (req : WriteRequest) (response : WriteResponse)
  | other (a : NodeAct)

/-- Requests and the other steps, one at a time. -/
def NodeNext (st : NodeState) (event : NodeEvent) (st' : NodeState) : Prop :=
  ∃ s s' : Server, s.state = st ∧ s'.state = st' ∧
    match event with
    | .served _ req response => ∃ disk, s.serve disk req = (s', response)
    | .other a => nodeStep ⟨s, []⟩ a = some ⟨s', []⟩

/-- The answer, from the moment the request has taken effect. -/
def WriteCall.answer : WriteCall → Option WriteResponse
  | ⟨req, .stored⟩ => some (.accepted (Server.countOf req.op))
  | ⟨_, .returned response⟩ => some response
  | _ => none

def nodeEvents (s : CallSys) : NodeAct → List NodeEvent
  | .call _ => []
  | .advance i disk =>
    match s.calls[i]? with
    | none => []
    | some call =>
      match call.answer, (advance s.server disk call.req call.phase).bind fun r => (WriteCall.mk call.req r.2).answer with
      | none, some response => [.served i call.req response]
      | _, _ => []
  | a => [.other a]

/-- The handler has begun with its checks, and has not written. -/
def HandlerPhase.midway (phase : HandlerPhase) : Bool := 1 ≤ phase.progress && phase.progress ≤ 6

/-- The node's own changes fall between the handlers. -/
def BetweenHandlers (s : CallSys) : NodeAct → Prop
  | .loseLease | .releaseAllLeases | .edit _ => ∀ call ∈ s.calls, call.phase.midway = false
  | _ => True

instance (s : CallSys) : ∀ a : NodeAct, Decidable (BetweenHandlers s a)
  | .loseLease | .releaseAllLeases | .edit _ => inferInstanceAs (Decidable (∀ call ∈ s.calls, call.phase.midway = false))
  | .call _ | .advance _ _ | .setReplicators _ | .otherWriter _ => isTrue trivial

/-! ## What a handler has checked still holds -/

/-- The checks that a handler on its way has passed. -/
def Passed (s : Server) (call : WriteCall) : Prop :=
  call.phase.midway = true → (call.phase = .present → call.req.op.plain = true) ∧
    ∀ c : Check, c.appliesTo call.req.op = true → call.phase.Past c → c.Passes s call.req

theorem Check.passes_congr {s s' : Server} (hcan : s'.canWrite = s.canWrite)
    (hpart : s'.pm.partitions = s.pm.partitions) {req : WriteRequest} {c : Check} (h : c.Passes s req) : c.Passes s' req := by
  cases c with
  | lease => exact hcan.trans h
  | hosted =>
    show s'.pm.partitions.contains req.partitionId = true
    rw [hpart]
    exact h
  | primary =>
    simp only [Passes, PartitionManager.isPrimary] at h ⊢
    rwa [hpart]
  | epoch =>
    simp only [Passes, PartitionManager.validateEpoch] at h ⊢
    rwa [hpart]
  | status =>
    obtain ⟨q, hq, hst⟩ := h
    exact ⟨q, by rw [hpart, hq], hst⟩

theorem Passed.congr {s s' : Server} (hcan : s'.canWrite = s.canWrite) (hpart : s'.pm.partitions = s.pm.partitions)
    {call : WriteCall} (h : Passed s call) : Passed s' call := fun hmid =>
  ⟨(h hmid).1, fun c hop hpast => Check.passes_congr hcan hpart ((h hmid).2 c hop hpast)⟩

/-- Where a handler is once it has passed the check. -/
def Check.next : Check → HandlerPhase
  | lease => .leased
  | hosted => .hosted
  | primary => .primary
  | epoch => .validated
  | status => .writable

theorem advance_next {s : Server} {req : WriteRequest} {c : Check} (h : c.Passes s req) (disk : Disk) :
    advance s disk req c.phase = some (s, c.next) := by
  cases c with
  | lease => exact advance_leased h
  | hosted => exact advance_hosted h
  | primary => exact advance_primary h
  | epoch =>
    have hepoch : s.pm.validateEpoch req.partitionId req.epoch = .ok () := h
    simp [advance, Check.phase, Check.next, hepoch]
  | status =>
    obtain ⟨q, hq, hst⟩ := h
    simp [advance, Check.phase, Check.next, hq, hst]

section
variable {s s' t t' : Server} {disk : Disk} {req : WriteRequest} {phase phase' : HandlerPhase}

theorem Gets.past {c : Check} (h : Gets disk req s .started s c.phase) (hpass : c.Passes s req) :
    Gets disk req s .started s c.next := h.trans (.step (advance_next hpass disk) .refl)

theorem not_midway_returned (response : WriteResponse) : (HandlerPhase.returned response).midway = false := by
  cases hack : response.success <;> simp [HandlerPhase.midway, HandlerPhase.progress, hack]

/-- A handler that starts now gets to where one is that has passed its checks. -/
theorem gets_of_passed (h : Passed s ⟨req, phase⟩) (hmid : phase.midway = true) : Gets disk req s .started s phase := by
  obtain ⟨hplain, hpass⟩ := h hmid
  have hstarted : Gets disk req s .started s Check.lease.phase := .refl
  have hleased : 0 < phase.progress → Gets disk req s .started s Check.hosted.phase := fun hlt =>
    hstarted.past (hpass .lease rfl hlt)
  have hhosted : 1 < phase.progress → Gets disk req s .started s Check.primary.phase := fun hlt =>
    (hleased (by omega)).past (hpass .hosted rfl hlt)
  have hprimary : 2 < phase.progress → Gets disk req s .started s Check.epoch.phase := fun hlt =>
    (hhosted (by omega)).past (hpass .primary rfl hlt)
  have hvalidated : 3 < phase.progress → Gets disk req s .started s .validated := fun hlt =>
    (hprimary (by omega)).past (hpass .epoch rfl hlt)
  -- the second look finds what the first has found
  have hpresent : 3 < phase.progress → req.op.plain = true → Gets disk req s .started s Check.status.phase := by
    intro hlt hplain
    have hhas : s.pm.hasPartition req.partitionId = true := hpass .hosted rfl (Nat.lt_trans (by decide) hlt)
    have hlook : advance s disk req .validated = some (s, .present) := by simp [advance, hplain, hhas]
    exact (hvalidated hlt).trans (.step hlook .refl)
  cases phase with
  | leased => exact hleased (by decide)
  | hosted => exact hhosted (by decide)
  | primary => exact hprimary (by decide)
  | validated => exact hvalidated (by decide)
  | present => exact hpresent (by decide) (hplain rfl)
  | writable =>
    cases hop : req.op.plain with
    | true => exact (hpresent (by decide) hop).past (hpass .status hop (past_writable .status))
    | false =>
      have hfield : advance s disk req .validated = some (s, .writable) := by simp [advance, hop]
      exact (hvalidated (by decide)).trans (.step hfield .refl)
  | started | stored | panicked => cases hmid
  | returned response => simp [not_midway_returned] at hmid

/-- A handler on its own ends in one way. -/
theorem Gets.unique {response response' : WriteResponse} (h : Gets disk req s phase t (.returned response))
    (h' : Gets disk req s phase t' (.returned response')) : t = t' ∧ response = response' := by
  have hstop : ∀ {m n : Nat} {t t' : Server} {response response' : WriteResponse}, m ≤ n →
      run nodeStep (alone s req phase) (List.replicate m (.advance 0 disk)) = some (alone t req (.returned response)) →
      run nodeStep (alone s req phase) (List.replicate n (.advance 0 disk)) = some (alone t' req (.returned response')) →
      t = t' ∧ response = response' := by
    intro m n t t' response response' hle hm hn
    obtain ⟨k, rfl⟩ := Nat.exists_eq_add_of_le hle
    rw [← List.replicate_append_replicate] at hn
    have hrest := run_of_append hm hn
    cases k with
    | zero =>
      cases hrest
      exact ⟨rfl, rfl⟩
    | succ k => cases hrest
  obtain ⟨m, hm⟩ := h
  obtain ⟨n, hn⟩ := h'
  rcases Nat.le_total m n with hle | hle
  · exact hstop hle hm hn
  · obtain ⟨ht, hr⟩ := hstop hle hn hm
    exact ⟨ht.symm, hr.symm⟩

theorem serve_of_gets {response : WriteResponse} (h : Gets disk req s .started t (.returned response)) :
    s.serve disk req = (t, response) := by
  obtain ⟨ht, hresponse⟩ := h.unique (advance_serve s disk req)
  exact Prod.ext ht.symm hresponse.symm

/-- Until the write, and from it on, a handler leaves the store alone. -/
theorem advance_same (h : advance s disk req phase = some (s', phase')) (hstored : phase' ≠ .stored)
    (hreturned : ∀ response, phase' ≠ .returned response) : s' = s := by
  cases phase with
  | started | leased | hosted =>
    cases h
    rfl
  | primary =>
    simp only [advance] at h
    split at h <;> cases h <;> rfl
  | validated =>
    simp only [advance] at h
    split_ifs at h <;> cases h <;> rfl
  | present =>
    simp only [advance] at h
    split at h <;> cases h <;> rfl
  | writable =>
    simp only [advance] at h
    split at h <;> cases h
    · exact absurd rfl hstored
    · exact absurd rfl (hreturned _)
  | stored =>
    cases h
    exact absurd rfl (hreturned _)
  | returned response => cases h
  | panicked => cases h

/-- A request takes effect where `serve` would make it. -/
theorem next_advance (hpassed : Passed s ⟨req, phase⟩) (hadv : advance s disk req phase = some (s', phase'))
    (hans : (WriteCall.mk req phase).answer = none) (i : Nat) :
    match (WriteCall.mk req phase').answer with
    | some response => NodeNext s.state (.served i req response) s'.state
    | none => s'.state = s.state := by
  have hreach : Gets disk req s .started s phase := by
    cases phase with
    | started => exact .refl
    | leased | hosted | primary | validated | present | writable => exact gets_of_passed hpassed rfl
    | stored | returned _ => cases hans
    | panicked => cases hadv
  cases phase' with
  | stored =>
    have hlogged : Gets disk req s .started (s'.logOn disk req.partitionId req.op)
        (.returned (.accepted (Server.countOf req.op))) := hreach.trans (.step hadv (.step rfl .refl))
    refine ⟨s, s'.logOn disk req.partitionId req.op, rfl, ?_, disk, serve_of_gets hlogged⟩
    rw [Server.state, Server.logOn_pm, Server.logOn_canWrite]
    rfl
  | returned response => exact ⟨s, s', rfl, rfl, disk, serve_of_gets (hreach.trans (.step hadv .refl))⟩
  | started | leased | hosted | primary | validated | present | writable | panicked =>
    exact congrArg Server.state (advance_same hadv nofun nofun)

/-- A handler on its way was so before, or has just begun. -/
theorem midway_of_advance (hadv : advance s disk req phase = some (s', phase')) (hmid : phase'.midway = true) :
    (phase = .started ∨ phase.midway = true) ∧ (phase' = .present → req.op.plain = true) := by
  cases phase with
  | started =>
    simp only [advance] at hadv
    split_ifs at hadv <;> cases hadv
    · exact ⟨.inl rfl, fun h => by cases h⟩
    · simp [not_midway_returned] at hmid
  | leased | hosted =>
    simp only [advance] at hadv
    split_ifs at hadv <;> cases hadv
    · exact ⟨.inr rfl, fun h => by cases h⟩
    · simp [not_midway_returned] at hmid
  | primary =>
    simp only [advance] at hadv
    split at hadv <;> cases hadv
    · simp [not_midway_returned] at hmid
    · exact ⟨.inr rfl, fun h => by cases h⟩
  | validated =>
    simp only [advance] at hadv
    split_ifs at hadv with hplain hhas <;> cases hadv
    · exact ⟨.inr rfl, fun _ => hplain⟩
    · simp [not_midway_returned] at hmid
    · exact ⟨.inr rfl, fun h => by cases h⟩
  | present =>
    simp only [advance] at hadv
    split at hadv
    · cases hadv
      cases hmid
    · split_ifs at hadv <;> cases hadv
      · exact ⟨.inr rfl, fun h => by cases h⟩
      · simp [not_midway_returned] at hmid
  | writable =>
    simp only [advance] at hadv
    split at hadv <;> cases hadv
    · cases hmid
    · simp [not_midway_returned] at hmid
  | stored =>
    cases hadv
    simp [not_midway_returned] at hmid
  | returned response => cases hadv
  | panicked => cases hadv

theorem passed_advance (hpassed : Passed s ⟨req, phase⟩) (hadv : advance s disk req phase = some (s', phase')) :
    Passed s' ⟨req, phase'⟩ := by
  intro hmid
  obtain ⟨hwas, hplain⟩ := midway_of_advance hadv hmid
  refine ⟨hplain, fun c hop hpast => ?_⟩
  obtain ⟨hcan, hpart⟩ := advance_server hadv
  refine Check.passes_congr hcan hpart ?_
  by_cases hbefore : phase.Past c
  · have hwasMid : phase.midway = true := hwas.resolve_left fun hstarted => not_past_started c (hstarted ▸ hbefore)
    exact (hpassed hwasMid).2 c hop hbefore
  · exact (past_of_advance hadv hop hbefore hpast).2

end

/-! ## Runs -/

theorem passed_step {s s' : CallSys} {a : NodeAct} (h : ∀ call ∈ s.calls, Passed s.server call)
    (hc : BetweenHandlers s a) (hstep : nodeStep s a = some s') : ∀ call ∈ s'.calls, Passed s'.server call := by
  -- a change that falls between the handlers finds none on its way
  have hquiet : (∀ call ∈ s.calls, call.phase.midway = false) → ∀ server : Server, ∀ call ∈ s.calls, Passed server call := by
    intro hnone server call hcall hmid
    simp [hnone call hcall] at hmid
  cases a with
  | call req =>
    cases hstep
    intro call hcall
    rcases List.mem_append.1 hcall with hold | hnew
    · exact h call hold
    · rw [List.mem_singleton.1 hnew]
      exact nofun
  | advance i disk =>
    simp only [nodeStep] at hstep
    split at hstep
    · cases hstep
    · rename_i req phase hi
      obtain ⟨⟨server, phase'⟩, hadv, rfl⟩ := Option.map_eq_some_iff.1 hstep
      intro call hcall
      rcases List.mem_or_eq_of_mem_set hcall with hold | rfl
      · exact (h call hold).congr (advance_server hadv).1 (advance_server hadv).2
      · exact passed_advance (h _ (List.mem_of_getElem? hi)) hadv
  | loseLease =>
    cases hstep
    exact hquiet hc _
  | releaseAllLeases =>
    cases hstep
    exact hquiet hc _
  | edit e =>
    simp only [nodeStep] at hstep
    split at hstep <;> cases hstep
    · exact h
    · exact hquiet hc _
  | setReplicators replicators =>
    cases hstep
    exact fun call hcall => (h call hcall).congr rfl rfl
  | otherWriter writes =>
    cases hstep
    exact fun call hcall => (h call hcall).congr rfl rfl

/-- A request that has taken effect keeps its answer, and only the log is left to be done. -/
theorem advance_answered {s s' : Server} {disk : Disk} {req : WriteRequest} {phase phase' : HandlerPhase}
    {response : WriteResponse} (hans : (WriteCall.mk req phase).answer = some response)
    (hadv : advance s disk req phase = some (s', phase')) :
    (WriteCall.mk req phase').answer = some response ∧ s'.state = s.state := by
  cases phase with
  | stored =>
    cases hadv
    refine ⟨hans, ?_⟩
    rw [Server.state, Server.logOn_pm, Server.logOn_canWrite]
    rfl
  | returned response => cases hadv
  | started | leased | hosted | primary | validated | present | writable | panicked => cases hans

theorem next_step (s : CallSys) (a : NodeAct) (s' : CallSys) (h : ∀ call ∈ s.calls, Passed s.server call)
    (hstep : nodeStep s a = some s') : Steps NodeNext s.server.state (nodeEvents s a) s'.server.state := by
  cases a with
  | call req =>
    cases hstep
    exact .nil
  | advance i disk =>
    simp only [nodeStep] at hstep
    split at hstep
    · cases hstep
    · rename_i req phase hi
      obtain ⟨⟨server, phase'⟩, hadv, rfl⟩ := Option.map_eq_some_iff.1 hstep
      simp only [nodeEvents, hi, hadv, Option.bind_some]
      cases hans : (WriteCall.mk req phase).answer with
      | some response =>
        rw [(advance_answered hans hadv).2]
        exact .nil
      | none =>
        have hnext := next_advance (h _ (List.mem_of_getElem? hi)) hadv hans i
        cases hans' : (WriteCall.mk req phase').answer with
        | none =>
          rw [hans'] at hnext
          rw [show server.state = s.server.state from hnext]
          exact .nil
        | some response =>
          rw [hans'] at hnext
          exact .single hnext
  | loseLease | releaseAllLeases | setReplicators _ | otherWriter _ =>
    cases hstep
    exact .single ⟨s.server, _, rfl, rfl, rfl⟩
  | edit e =>
    refine .single ⟨s.server, s'.server, rfl, rfl, ?_⟩
    simp only [nodeStep] at hstep ⊢
    split at hstep <;> cases hstep <;> simp only [*]

/-- The answer an event gives to call `i`. -/
def NodeEvent.answerTo (i : Nat) : NodeEvent → Option (WriteRequest × WriteResponse)
  | .served j req response => if j = i then some (req, response) else none
  | .other _ => none

/-- The call's request and its answer, from the moment it has taken effect. -/
def CallSys.answered (s : CallSys) (i : Nat) : Option (WriteRequest × WriteResponse) :=
  (s.calls[i]?).bind fun call => call.answer.map fun response => (call.req, response)

/-- Every call has taken effect once if it has an answer, and otherwise not. -/
def AnsweredOnce (past : List NodeEvent) (s : CallSys) : Prop :=
  ∀ i, past.filterMap (NodeEvent.answerTo i) = (s.answered i).toList

theorem answeredOnce_step (past : List NodeEvent) (s : CallSys) (a : NodeAct) (s' : CallSys) (h : AnsweredOnce past s)
    (hstep : nodeStep s a = some s') : AnsweredOnce (past ++ nodeEvents s a) s' := by
  intro i
  rw [List.filterMap_append, h i]
  cases a with
  | call req =>
    cases hstep
    simp only [nodeEvents, List.filterMap_nil, List.append_nil, CallSys.answered, List.getElem?_append]
    split_ifs with hi
    · rfl
    · rw [List.getElem?_eq_none (Nat.le_of_not_lt hi)]
      cases hnew : ([⟨req, .started⟩] : List WriteCall)[i - s.calls.length]? with
      | none => rfl
      | some call =>
        obtain rfl := List.mem_singleton.1 (List.mem_of_getElem? hnew)
        rfl
  | advance j disk =>
    simp only [nodeStep] at hstep
    split at hstep
    · cases hstep
    · rename_i req phase hj
      obtain ⟨⟨server, phase'⟩, hadv, rfl⟩ := Option.map_eq_some_iff.1 hstep
      simp only [nodeEvents, hj, hadv, Option.bind_some]
      by_cases hij : j = i
      · subst hij
        have hset : (s.calls.set j ⟨req, phase'⟩)[j]? = some ⟨req, phase'⟩ :=
          List.getElem?_set_self (List.getElem?_eq_some_iff.1 hj).1
        simp only [CallSys.answered, hj, hset, Option.bind_some]
        cases hans : (WriteCall.mk req phase).answer with
        | some response =>
          rw [(advance_answered hans hadv).1]
          rfl
        | none => cases (WriteCall.mk req phase').answer <;> simp [NodeEvent.answerTo]
      · have hothers : CallSys.answered ⟨server, s.calls.set j ⟨req, phase'⟩⟩ i = s.answered i := by
          simp only [CallSys.answered, List.getElem?_set_ne hij]
        rw [hothers]
        cases (WriteCall.mk req phase).answer <;> cases (WriteCall.mk req phase').answer <;>
          simp [NodeEvent.answerTo, hij]
  | loseLease | releaseAllLeases | setReplicators _ | otherWriter _ =>
    cases hstep
    exact List.append_nil _
  | edit e =>
    simp only [nodeStep] at hstep
    split at hstep <;> cases hstep <;> exact List.append_nil _

/-- Two puts of one key, the second of which is written first; the lease is lost when both have been. -/
def twoPuts : List NodeAct :=
  [.call putOne, .call ⟨7, 0, .put [1] [3]⟩] ++ steps 0 6 ++ steps 1 7 ++ steps 0 1 ++ [.loseLease] ++ steps 0 1 ++ steps 1 1

end RocksKV.Storage
