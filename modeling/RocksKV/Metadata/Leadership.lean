import RocksKV.Lib.Run
/-!
# The two leadership flags (`pkg/metadata/leader.go`, `pkg/metadata/ha_server.go`)

| here | there |
| --- | --- |
| `LeaderElection`  | `LeaderElection` (`leader.go:29-42`): its `isLeader` and `leaderID`, and the resignations under way |
| `becomeLeader`, `loseLeadership` | `leader.go:195-225`: set the flag and spawn the callback |
| `resignLeadership`, `resigned` | `leader.go:228-242`: the check, and the store that follows the call to etcd |
| `observe`         | `watchLeader` (`leader.go:164-192`) |
| `HAServer`        | `HAServer` (`ha_server.go:33-40`); `leader` is its own `isLeader` flag |
| `HAServer.new`    | `NewHAServer` (`ha_server.go:43-85`), which registers `onLeadershipChange` as the one callback |
| `callbacks`       | the goroutines `go cb(true)`, `go cb(false)` that have not run, the oldest first |

`becomeLeader` and `loseLeadership` set the election's flag at once and the server's through a goroutine, and nothing
orders these goroutines. `resignLeadership` spawns none.
-/

namespace RocksKV.Metadata

open Lib

structure LeaderElection where
  nodeID    : String
  isLeader  : Bool
  leaderID  : String
  /-- Calls of `resignLeadership` that are past the check. -/
  resigning : Nat
  deriving DecidableEq, Repr

structure HAServer where
  haEnabled : Bool
  election  : LeaderElection
  /-- The server's own flag. -/
  leader    : Bool
  callbacks : List Bool
  deriving DecidableEq, Repr

namespace HAServer

/-- Without HA the node is always the leader. -/
def new (haEnabled : Bool) (nodeID : String) : HAServer :=
  { haEnabled, election := ⟨nodeID, false, "", 0⟩, leader := !haEnabled, callbacks := [] }

def onLeadershipChange (s : HAServer) (isLeader : Bool) : HAServer := { s with leader := isLeader }

def isLeader (s : HAServer) : Bool := if s.haEnabled then s.leader else true

def getLeaderID (s : HAServer) : String := if s.haEnabled then s.election.leaderID else s.election.nodeID

def becomeLeader (s : HAServer) : HAServer :=
  { s with
    election := { s.election with isLeader := true, leaderID := s.election.nodeID }
    callbacks := s.callbacks ++ [true] }

def loseLeadership (s : HAServer) : HAServer :=
  { s with
    election := { s.election with isLeader := false }
    callbacks := s.callbacks ++ [false] }

def resignLeadership (s : HAServer) : HAServer :=
  if s.election.isLeader then { s with election := { s.election with resigning := s.election.resigning + 1 } } else s

end HAServer

inductive ElectionAct
  | becomeLeader
  | loseLeadership
  | resignLeadership
  /-- A resignation that has come back from etcd stores its result. -/
  | resigned
  | observe (leaderID : String)
  /-- Callback `i` runs. -/
  | callback (i : Nat)
  deriving DecidableEq, Repr

/-- Without HA there is no election. -/
def electionStep (s : HAServer) (a : ElectionAct) : Option HAServer :=
  if s.haEnabled then
    match a with
    | .becomeLeader => some s.becomeLeader
    | .loseLeadership => some s.loseLeadership
    | .resignLeadership => some s.resignLeadership
    | .resigned =>
      if 0 < s.election.resigning then
        some { s with election := { s.election with isLeader := false, resigning := s.election.resigning - 1 } }
      else none
    | .observe leaderID => some { s with election := { s.election with leaderID := leaderID } }
    | .callback i =>
      match s.callbacks[i]? with
      | some isLeader => some ({ s with callbacks := s.callbacks.eraseIdx i }.onLeadershipChange isLeader)
      | none => none
  else none

/-- A leader does not resign, and the newest callback does not overtake one that carries another value. -/
def InOrder (s : HAServer) : ElectionAct → Prop
  | .resignLeadership => s.election.isLeader = false
  | .callback i => i + 1 = s.callbacks.length → ∀ isLeader ∈ s.callbacks, s.callbacks[i]? = some isLeader
  | _ => True

instance (s : HAServer) : ∀ a : ElectionAct, Decidable (InOrder s a)
  | .resignLeadership => inferInstanceAs (Decidable (s.election.isLeader = false))
  | .callback i =>
    inferInstanceAs (Decidable (i + 1 = s.callbacks.length → ∀ isLeader ∈ s.callbacks, s.callbacks[i]? = some isLeader))
  | .becomeLeader | .loseLeadership | .resigned | .observe _ => inferInstanceAs (Decidable True)

/-- What the server's flag will be when the newest callback has run last. -/
def HAServer.settled (s : HAServer) : Bool := s.callbacks.getLast?.getD s.leader

structure FlagsInv (s : HAServer) : Prop where
  enabled : s.haEnabled = true
  idle    : s.election.resigning = 0
  settles : s.settled = s.election.isLeader

/-- The newest value decides, so it does not matter when an older callback runs. -/
theorem settled_callback {s : HAServer} {i : Nat} {isLeader : Bool} (hi : s.callbacks[i]? = some isLeader)
    (hc : InOrder s (.callback i)) :
    ({ s with callbacks := s.callbacks.eraseIdx i }.onLeadershipChange isLeader).settled = s.settled := by
  obtain ⟨hlt, hval⟩ := List.getElem?_eq_some_iff.1 hi
  have hlen : (s.callbacks.eraseIdx i).length = s.callbacks.length - 1 := List.length_eraseIdx_of_lt hlt
  simp only [HAServer.settled, HAServer.onLeadershipChange, List.getLast?_eq_getElem?, hlen]
  by_cases hlast : i + 1 = s.callbacks.length
  · -- the newest: whatever is left carries the same value
    have hsame := hc hlast
    have hi' : s.callbacks.length - 1 = i := by omega
    rw [hi', hi]
    cases hrest : (s.callbacks.eraseIdx i)[i - 1]? with
    | none => rfl
    | some v =>
      have hv := hsame v (List.mem_of_mem_eraseIdx (List.mem_of_getElem? hrest))
      rw [hi] at hv
      exact (Option.some.inj hv).symm
  · have hne : s.callbacks.length - 1 - 1 ≥ i := by omega
    rw [List.getElem?_eraseIdx_of_ge hne, show s.callbacks.length - 1 - 1 + 1 = s.callbacks.length - 1 by omega]
    have hsome : s.callbacks.length - 1 < s.callbacks.length := by omega
    simp [List.getElem?_eq_getElem hsome]

theorem flagsInv_step (s : HAServer) (a : ElectionAct) (s' : HAServer) (h : FlagsInv s) (hc : InOrder s a)
    (hstep : electionStep s a = some s') : FlagsInv s' := by
  obtain ⟨hen, hidle, hset⟩ := h
  unfold electionStep at hstep
  rw [if_pos hen] at hstep
  cases a with
  | becomeLeader =>
    cases hstep
    exact ⟨hen, hidle, by simp [HAServer.settled, HAServer.becomeLeader]⟩
  | loseLeadership =>
    cases hstep
    exact ⟨hen, hidle, by simp [HAServer.settled, HAServer.loseLeadership]⟩
  | resignLeadership =>
    -- `resignLeadership` returns at its check
    have hnot : s.election.isLeader = false := hc
    simp only [HAServer.resignLeadership, hnot] at hstep
    cases hstep
    exact ⟨hen, hidle, hset⟩
  | resigned =>
    simp only [hidle] at hstep
    cases hstep
  | observe leaderID =>
    cases hstep
    exact ⟨hen, hidle, hset⟩
  | callback i =>
    simp only at hstep
    split at hstep
    · next isLeader hi =>
      cases hstep
      exact ⟨hen, hidle, (settled_callback hi hc).trans hset⟩
    · cases hstep

/-- **The flags agree** once all callbacks have run, in every run in which no leader resigns and no newest callback
overtakes an older one of another value. -/
theorem leadership_flags_agree {nodeID : String} {as : List ElectionAct} {s : HAServer}
    (hrun : run electionStep (HAServer.new true nodeID) as = some s)
    (hc : Along electionStep InOrder (HAServer.new true nodeID) as) (hdone : s.callbacks = []) :
    s.isLeader = s.election.isLeader := by
  have hnew : FlagsInv (HAServer.new true nodeID) := ⟨rfl, rfl, rfl⟩
  obtain ⟨hen, -, hset⟩ := run_inv_along flagsInv_step hnew hc hrun
  rw [HAServer.isLeader, if_pos hen, ← hset, HAServer.settled, hdone]
  rfl

/-- Leadership gained, lost and gained again; the two callbacks of the first cycle run in the wrong order. -/
theorem leadership_flags_agree_regained :
    ∃ s : HAServer,
      run electionStep (HAServer.new true "m1")
        [.becomeLeader, .loseLeadership, .becomeLeader, .callback 1, .callback 0, .callback 0] = some s ∧
      s.election.isLeader = true ∧ s.isLeader = s.election.isLeader := by
  refine ⟨_, rfl, rfl, ?_⟩
  exact @leadership_flags_agree "m1"
    [.becomeLeader, .loseLeadership, .becomeLeader, .callback 1, .callback 0, .callback 0] _ rfl (by decide) rfl

/-- **Bug**: after a resignation the server still takes itself for the leader; and after a gain and a loss whose
callbacks run in the other order it does so too. -/
theorem leadership_flags_differ :
    (∃ s : HAServer,
      run electionStep (HAServer.new true "m1") [.becomeLeader, .callback 0, .resignLeadership, .resigned] = some s ∧
      s.callbacks = [] ∧ s.election.isLeader = false ∧ s.isLeader = true) ∧
    ∃ s : HAServer,
      run electionStep (HAServer.new true "m1") [.becomeLeader, .loseLeadership, .callback 1, .callback 0] = some s ∧
      s.callbacks = [] ∧ s.election.isLeader = false ∧ s.isLeader = true :=
  ⟨⟨_, rfl, rfl, rfl, rfl⟩, ⟨_, rfl, rfl, rfl, rfl⟩⟩

end RocksKV.Metadata
