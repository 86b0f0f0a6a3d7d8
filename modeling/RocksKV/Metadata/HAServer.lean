import RocksKV.Metadata.Leadership
import RocksKV.Metadata.Requests
/-!
# Requests in HA mode (`pkg/metadata/ha_server.go`, `pkg/metadata/server.go`)

| here | there |
| --- | --- |
| `Process`         | a process that runs an `HAServer` over the store |
| `Service`         | which type's methods the gRPC server calls |
| `serverStart`     | `Server.Start`: `pb.RegisterMetadataServiceServer(s.grpcServer, s)` with `s` a `*Server` (`server.go:83-117`) |
| `haStart`         | `HAServer.Start`: wait for a leader, then `s.Server.Start(ctx)` (`ha_server.go:88-110`) |
| `checkLeaderForWrite`, `guarded` | `checkLeaderForWrite` and the five overrides (`ha_server.go:158-224`) |
| `dispatch`        | what gRPC does with a request |

`HAServer` embeds `*Server` and overrides five of its methods. But it is the embedded server's `Start` that registers
the service, and it registers itself, so the overrides are never called (`registered_run`). They would do what they
are there for, as far as the server's flag is right (`guarded_refuses`).
-/

namespace RocksKV.Metadata

open Lib

inductive Service
  | server | haServer
  deriving DecidableEq, Repr

structure Process where
  ha         : HAServer
  /-- `none` until the gRPC server is up. -/
  registered : Option Service
  server     : MetaServer

def HAServer.notLeader (s : HAServer) : Status :=
  ⟨"FailedPrecondition", s!"not the leader, current leader is: {s.getLeaderID}"⟩

def HAServer.checkLeaderForWrite (s : HAServer) : Option Status :=
  if s.haEnabled then
    if s.isLeader then none else some s.notLeader
  else none

/-- The response that goes with a refusal; `RegisterNode`'s has no message. -/
def Request.refusal (err : Status) : Request → Response
  | .registerNode _ _ _ => .registerNode false
  | .initCluster => .initCluster false err.error 0 0
  | .triggerRebalance _ => .triggerRebalance false err.error "" 0
  | .cancelMigration => .cancelMigration false err.error
  | .shutdownNode _ _ => .shutdownNode false err.error 0 0

section
variable (hash : String → UInt32)

/-- The methods of `*HAServer`: the check, then the method of the embedded server. -/
def guarded (ha : HAServer) (m : MetaServer) (env : Env) (rq : Request) : MetaServer × Reply :=
  match ha.checkLeaderForWrite with
  | some err => (m, ⟨rq.refusal err, some err⟩)
  | none => m.handle hash env rq

def dispatch (p : Process) (env : Env) (rq : Request) : Option (MetaServer × Reply) :=
  match p.registered with
  | none => none
  | some .server => some (p.server.handle hash env rq)
  | some .haServer => some (guarded hash p.ha p.server env rq)

def serverStart (p : Process) : Process := { p with registered := some .server }

/-- `WaitForLeader` waits until a leader is known. -/
def haStart (p : Process) : Option Process :=
  if p.ha.haEnabled ∧ p.ha.election.leaderID = "" then none else some (serverStart p)

inductive HAAct
  | start
  | election (a : ElectionAct)
  | request (env : Env) (rq : Request)
  /-- A step of another request or of a goroutine of this server. -/
  | background (a : ServerAct)
  /-- What others do to the migration records. -/
  | record (partitionID : UInt32) (info : Option MigrationInfo)

def haStep (p : Process) : HAAct → Option Process
  | .start => haStart p
  | .election a => (electionStep p.ha a).map fun ha => { p with ha := ha }
  | .request env rq => (dispatch hash p env rq).map fun x => { p with server := x.1 }
  | .background a => (serverStep hash p.server.sys a).map fun sys => { p with server := { p.server with sys := sys } }
  | .record partitionID info =>
    let migrations := match info with
      | some info => p.server.migrations.insert partitionID info
      | none => p.server.migrations.erase partitionID
    some { p with server := { p.server with migrations := migrations } }

/-- A process in HA mode, before `Start`, on whatever is in the store. -/
def Process.new (nodeID : String) (m : MetaServer) : Process := ⟨HAServer.new true nodeID, none, m⟩

variable {hash}

/-! ## The overrides -/

/-- The request is refused with an error and the store is as before. -/
def Refused (hash : String → UInt32) (p : Process) (env : Env) (rq : Request) : Prop :=
  ∃ m reply, dispatch hash p env rq = some (m, reply) ∧ reply.error ≠ none ∧ m.store = p.server.store

/-- Where the server's flag is down, an override returns an error and touches nothing. -/
theorem guarded_refuses {ha : HAServer} (hen : ha.haEnabled = true) (hnot : ha.isLeader = false) (m : MetaServer)
    (env : Env) (rq : Request) : guarded hash ha m env rq = (m, ⟨rq.refusal ha.notLeader, some ha.notLeader⟩) := by
  have hcheck : ha.checkLeaderForWrite = some ha.notLeader := by
    rw [HAServer.checkLeaderForWrite, if_pos hen, hnot]
    rfl
  simp only [guarded, hcheck]

/-- **Were the overrides registered**, only the leader would mutate metadata wherever the two flags agree. -/
theorem refused_of_haServer {p : Process} (hen : p.ha.haEnabled = true) (hreg : p.registered = some .haServer)
    (hflags : p.ha.isLeader = p.ha.election.isLeader) (hnot : p.ha.election.isLeader = false) (env : Env) (rq : Request) :
    Refused hash p env rq := by
  have hguard := @guarded_refuses hash _ hen (hflags.trans hnot) p.server env rq
  have hdispatch : dispatch hash p env rq = some (guarded hash p.ha p.server env rq) := by simp only [dispatch, hreg]
  exact ⟨p.server, _, hdispatch.trans (congrArg some hguard), Option.some_ne_none _, rfl⟩

/-! ## What is registered -/

/-- The gRPC server, once up, calls the methods of `*Server`. -/
def Process.Bare (p : Process) : Prop := p.registered = none ∨ p.registered = some .server

theorem bare_step (p : Process) (a : HAAct) (p' : Process) (h : p.Bare) (hstep : haStep hash p a = some p') : p'.Bare := by
  cases a with
  | start =>
    simp only [haStep, haStart] at hstep
    split_ifs at hstep
    cases hstep
    exact .inr rfl
  | election a =>
    obtain ⟨ha, -, rfl⟩ := Option.map_eq_some_iff.1 hstep
    exact h
  | request env rq =>
    obtain ⟨x, -, rfl⟩ := Option.map_eq_some_iff.1 hstep
    exact h
  | background a =>
    obtain ⟨sys, -, rfl⟩ := Option.map_eq_some_iff.1 hstep
    exact h
  | record partitionID info =>
    cases hstep
    exact h

/-- **The overrides are never registered.** -/
theorem registered_run {nodeID : String} {m : MetaServer} {as : List HAAct} {p : Process}
    (hrun : run (haStep hash) (Process.new nodeID m) as = some p) (hup : p.registered ≠ none) :
    p.registered = some .server :=
  (run_inv bare_step (.inl rfl) hrun).resolve_left hup

/-- **Only the leader mutates metadata**: this fails for every request that reaches a process in HA mode that is not the
leader. The handler it gets to returns no error. -/
theorem only_leader_mutates_iff {nodeID : String} {m : MetaServer} {as : List HAAct} {p : Process}
    (hrun : run (haStep hash) (Process.new nodeID m) as = some p) (hup : p.registered ≠ none) (env : Env) (rq : Request) :
    (p.ha.election.isLeader = false → Refused hash p env rq) ↔ p.ha.election.isLeader = true := by
  constructor
  · intro hrefused
    by_contra hleader
    obtain ⟨m', reply, hdispatch, herror, -⟩ := hrefused (Bool.eq_false_iff.2 hleader)
    simp only [dispatch, registered_run hrun hup, Option.some.injEq] at hdispatch
    have hnone := @MetaServer.handle_error hash env p.server rq
    rw [hdispatch] at hnone
    exact herror hnone
  · intro hleader hnot
    rw [hleader] at hnot
    cases hnot

end

/-- A follower that is up, on an empty store. -/
def followerUp : List HAAct := [.election (.observe "m2"), .start]

/-- No call fails. -/
def fairEnv : Env :=
  { fails := fun _ => none, migrationID := "", order := [], executed := [], inTime := 0, expired := fun _ => false }

theorem only_leader_mutates_iff_follower :
    ∃ p : Process,
      run (haStep hashKey) (Process.new "m1" ⟨.start, OrdMap.empty⟩) followerUp = some p ∧
      p.ha.election.isLeader = false ∧ ¬ Refused hashKey p fairEnv .initCluster := by
  refine ⟨_, rfl, rfl, fun hrefused => ?_⟩
  have hleader := (@only_leader_mutates_iff hashKey "m1" ⟨.start, OrdMap.empty⟩ followerUp _ rfl (by simp [serverStart])
    fairEnv .initCluster).1 fun _ => hrefused
  exact absurd hleader (by decide)

/-- **Bug**: a follower registers a node and reports success. -/
theorem follower_registers_node :
    ∃ p : Process, ∃ m : MetaServer, ∃ reply : Reply,
      run (haStep hashKey) (Process.new "m1" ⟨.start, OrdMap.empty⟩) followerUp = some p ∧
      p.ha.election.isLeader = false ∧ p.server.store.nodes.get "c1" = none ∧
      dispatch hashKey p fairEnv (.registerNode "c1" "10.0.0.7:9000" .compute) = some (m, reply) ∧
      reply = ⟨.registerNode true, none⟩ ∧ m.store.nodes.get "c1" = some ⟨"c1", "10.0.0.7:9000", .compute, .online⟩ :=
  ⟨_, _, _, rfl, rfl, by decide, rfl, rfl, by decide⟩

end RocksKV.Metadata
