import RocksKV.Lib.LeaseQueue
import RocksKV.Lib.Simulation
import RocksKV.Metadata.RouteTable
/-!
# The lock around a commit (`pkg/metadata/etcd.go:99-115`, `:332-370`)

| here | there |
| --- | --- |
| `LockSys.queue`  | the keys under `routeTableLockKey`, one for the session of each metadata server |
| `LockAct.call`   | `UpdateRouteTable` up to the key put by `routeTableMutex.Lock` (`:334`) |
| `LockAct.acquire`, `giveUp` | the return of `Lock`: the server's key is the oldest; or it is gone, or the context ends |
| `LockAct.read`   | `GetRouteTable` (`:344`) |
| `LockAct.put`    | `client.Put` (`:359`) |
| `LockAct.unlock` | the deferred `Unlock` (`:337-341`), after whatever stage the call has reached; it may fail |
| `LockAct.expire` | the lease of a server's session ends; `NewEtcdStore` is the only place that makes one |

`concurrency.Mutex` is the boundary: its key is that of the session, so two calls of one process hold the lock
together, and the first `Unlock` releases it for both. `PromoteReplica`, `SetPartitionStatus` and `CompleteMigration`
hold `r.mu` all along (`router.go:370`, `:418`, `:504`) and keep each other out; `RebalancePartitions` and
`allocatePartitions` do not.

`updateRouteTable`, by which `Metadata.Router` models a commit, is one step: the lock makes it so as long as a call
without `r.mu` is alone in its process and no session ends inside the lock (`locked_update_atomic`).
-/

namespace RocksKV.Metadata

open Lib

inductive LockPhase
  | waiting
  | locked
  | read (version : Nat)
  | written
  | returned
  deriving DecidableEq, Repr

namespace LockPhase

/-- Between `Lock` and `Unlock`. -/
def critical : LockPhase → Bool
  | locked | read _ | written => true
  | waiting | returned => false

def active : LockPhase → Bool
  | returned => false
  | _ => true

theorem active_of_critical {ph : LockPhase} (h : ph.critical = true) : ph.active = true := by
  cases ph <;> first | rfl | cases h

end LockPhase

/-- One call of `UpdateRouteTable`. -/
structure UpdateCall where
  /-- The metadata server, and so the session. -/
  server : String
  table  : RouteTable
  /-- The caller holds `r.mu`. -/
  mu     : Bool
  phase  : LockPhase

structure LockSys where
  queue     : LeaseQueue String
  /-- Sessions that have ended. -/
  expired   : List String
  /-- The table in etcd. -/
  committed : RouteTable
  calls     : List UpdateCall

inductive LockAct
  | call (server : String) (table : RouteTable) (mu : Bool)
  | acquire (i : Nat)
  | giveUp (i : Nat) (cancelled : Bool)
  | read (i : Nat)
  | put (i : Nat)
  | unlock (i : Nat) (released : Bool)
  | expire (server : String)

namespace LockSys

def start (committed : RouteTable) : LockSys := { queue := .empty, expired := [], committed := committed, calls := [] }

def setPhase (s : LockSys) (i : Nat) (phase : LockPhase) : LockSys :=
  { s with calls := s.calls.modify i fun c => { c with phase := phase } }

end LockSys

def lockStep (s : LockSys) : LockAct → Option LockSys
  | .call server table mu =>
    if mu && s.calls.any fun c => c.server == server && c.mu && c.phase.active then none
    -- the put of the key needs the lease
    else if server ∈ s.expired then some { s with calls := s.calls ++ [⟨server, table, mu, .returned⟩] }
    else some { s with queue := s.queue.join server, calls := s.calls ++ [⟨server, table, mu, .waiting⟩] }
  | .acquire i =>
    match s.calls[i]? with
    | some ⟨server, _, _, .waiting⟩ => if s.queue.owner = some server then some (s.setPhase i .locked) else none
    | _ => none
  | .giveUp i cancelled =>
    match s.calls[i]? with
    | some ⟨server, _, _, .waiting⟩ =>
      -- a cancelled `Lock` deletes the key; a lost key is reported as an expired session
      if cancelled then some { s.setPhase i .returned with queue := s.queue.leave server }
      else if server ∈ s.queue.keys then none
      else some (s.setPhase i .returned)
    | _ => none
  | .read i =>
    match s.calls[i]? with
    | some ⟨_, _, _, .locked⟩ => some (s.setPhase i (.read s.committed.version))
    | _ => none
  | .put i =>
    match s.calls[i]? with
    | some ⟨_, table, _, .read version⟩ =>
      some { s.setPhase i .written with committed := { table with version := version + 1 } }
    | _ => none
  | .unlock i released =>
    match s.calls[i]? with
    | some c =>
      if c.phase.critical then
        let s := s.setPhase i .returned
        some (if released then { s with queue := s.queue.leave c.server } else s)
      else none
    | none => none
  | .expire server => some { s with queue := s.queue.leave server, expired := server :: s.expired }

/-- The tables that are put, with the server that puts them. -/
def lockEvents (s : LockSys) : LockAct → List (String × RouteTable)
  | .put i =>
    match s.calls[i]? with
    | some ⟨server, table, _, .read _⟩ => [(server, table)]
    | _ => []
  | _ => []

/-- The commit `Metadata.Router` takes for one step. -/
def Committed (current : RouteTable) (event : String × RouteTable) (next : RouteTable) : Prop :=
  next = updateRouteTable current event.2

/-- A call without `r.mu` is alone in its process, and no session ends while one of its calls has the lock. -/
def Exclusive (s : LockSys) : LockAct → Prop
  | .call server _ mu => ∀ c ∈ s.calls, c.server = server → c.phase.active = true → c.mu = true ∧ mu = true
  | .expire server => ∀ c ∈ s.calls, c.server = server → c.phase.critical = false
  | _ => True

instance (s : LockSys) : ∀ a, Decidable (Exclusive s a)
  | .call _ _ _ => inferInstanceAs (Decidable (∀ c ∈ s.calls, _))
  | .expire _ => inferInstanceAs (Decidable (∀ c ∈ s.calls, _))
  | .acquire _ | .giveUp _ _ | .read _ | .put _ | .unlock _ _ => isTrue trivial

/-! ## Mutual exclusion -/

/-- A call inside the lock has its server's key in front; one call of a server is under way; and a version that was
read is still the committed one. -/
structure LockInv (s : LockSys) : Prop where
  owner : ∀ (i : Nat) (c : UpdateCall), s.calls[i]? = some c → c.phase.critical = true → s.queue.owner = some c.server
  one   : ∀ (i j : Nat) (c d : UpdateCall), s.calls[i]? = some c → s.calls[j]? = some d → c.phase.active = true →
    d.phase.active = true → c.server = d.server → i = j
  fresh : ∀ (i : Nat) (c : UpdateCall) (v : Nat), s.calls[i]? = some c → c.phase = .read v → v = s.committed.version

theorem lockInv_start (committed : RouteTable) : LockInv (.start committed) where
  owner _ _ h := by cases h
  one _ _ _ _ h := by cases h
  fresh _ _ _ h := by cases h

section
variable {s s' : LockSys}

/-- **Mutual exclusion**: one call at most is inside the lock. -/
theorem LockInv.exclusive (h : LockInv s) {i j : Nat} {c d : UpdateCall} (hi : s.calls[i]? = some c)
    (hj : s.calls[j]? = some d) (hc : c.phase.critical = true) (hd : d.phase.critical = true) : i = j := by
  have howner := (h.owner i c hi hc).symm.trans (h.owner j d hj hd)
  exact h.one i j c d hi hj (LockPhase.active_of_critical hc) (LockPhase.active_of_critical hd) (Option.some.inj howner)

theorem getElem?_setPhase {i j : Nat} {phase : LockPhase} {d : UpdateCall} (h : (s.setPhase i phase).calls[j]? = some d) :
    ∃ c, s.calls[j]? = some c ∧ (j = i ∧ d = { c with phase := phase } ∨ j ≠ i ∧ d = c) :=
  getElem?_modify_eq_some h

/-- A call that goes on, in front of the queue or on its way out, and nobody else. -/
theorem LockInv.setPhase (h : LockInv s) {i : Nat} {c : UpdateCall} {phase : LockPhase} (hi : s.calls[i]? = some c)
    (hactive : phase.active = true → c.phase.active = true)
    (howner : phase.critical = true → s.queue.owner = some c.server)
    (hfresh : ∀ v, phase = .read v → v = s.committed.version) : LockInv (s.setPhase i phase) := by
  have hold : ∀ (j : Nat) (d : UpdateCall), (s.setPhase i phase).calls[j]? = some d →
      ∃ c', s.calls[j]? = some c' ∧ c'.server = d.server ∧ (d.phase.active = true → c'.phase.active = true) ∧
        (j = i ∧ d.phase = phase ∨ d = c') := by
    intro j d hj
    obtain ⟨c', hc', ⟨rfl, rfl⟩ | ⟨-, rfl⟩⟩ := getElem?_setPhase hj
    · rw [hi] at hc'
      cases hc'
      exact ⟨c, hi, rfl, hactive, .inl ⟨rfl, rfl⟩⟩
    · exact ⟨d, hc', rfl, id, .inr rfl⟩
  refine ⟨fun j d hj hd => ?_, fun j k d e hj hk hd he hsame => ?_, fun j d v hj hv => ?_⟩
  · obtain ⟨c', hc', hserver, -, ⟨rfl, hphase⟩ | rfl⟩ := hold j d hj
    · rw [hi] at hc'
      cases hc'
      rw [← hserver]
      exact howner (hphase ▸ hd)
    · exact h.owner j d hc' hd
  · obtain ⟨d', hd', hds, hda, -⟩ := hold j d hj
    obtain ⟨e', he', hes, hea, -⟩ := hold k e hk
    exact h.one j k d' e' hd' he' (hda hd) (hea he) (by rw [hds, hes, hsame])
  · obtain ⟨c', hc', -, -, ⟨rfl, hphase⟩ | rfl⟩ := hold j d hj
    · exact hfresh v (hphase ▸ hv)
    · exact h.fresh j d v hc' hv

/-- A key that no call inside the lock needs may go. -/
theorem LockInv.leave (h : LockInv s) {server : String}
    (hfree : ∀ c ∈ s.calls, c.server = server → c.phase.critical = false) (expired : List String) :
    LockInv { s with queue := s.queue.leave server, expired := expired } where
  owner i c hi hc := by
    refine LeaseQueue.owner_leave (h.owner i c hi hc) fun heq => ?_
    rw [hfree c (List.mem_of_getElem? hi) heq.symm] at hc
    cases hc
  one := h.one
  fresh := h.fresh

/-- A new call. -/
theorem LockInv.call (h : LockInv s) {c : UpdateCall} {queue : LeaseQueue String} (hcritical : c.phase.critical = false)
    (hqueue : ∀ t, s.queue.owner = some t → queue.owner = some t)
    (hone : c.phase.active = true → ∀ d ∈ s.calls, d.server = c.server → d.phase.active = false) :
    LockInv { s with queue := queue, calls := s.calls ++ [c] } where
  owner i d hi hd := by
    rcases getElem?_concat_eq_some hi with ⟨-, rfl⟩ | hold
    · rw [hcritical] at hd
      cases hd
    · exact hqueue _ (h.owner i d hold hd)
  one i j d e hi hj hd he hsame := by
    rcases getElem?_concat_eq_some hi with ⟨hi', rfl⟩ | hi' <;> rcases getElem?_concat_eq_some hj with ⟨hj', rfl⟩ | hj'
    · omega
    · rw [hone hd e (List.mem_of_getElem? hj') hsame.symm] at he
      cases he
    · rw [hone he d (List.mem_of_getElem? hi') hsame] at hd
      cases hd
    · exact h.one i j d e hi' hj' hd he hsame
  fresh i d v hi hv := by
    rcases getElem?_concat_eq_some hi with ⟨-, rfl⟩ | hold
    · rw [hv] at hcritical
      cases hcritical
    · exact h.fresh i d v hold hv

/-- The call that leaves the lock takes its server's key along. -/
theorem LockInv.unlock (h : LockInv s) {i : Nat} {c : UpdateCall} (hi : s.calls[i]? = some c)
    (hc : c.phase.critical = true) :
    LockInv { s.setPhase i .returned with queue := s.queue.leave c.server } := by
  have hreturned : LockInv (s.setPhase i .returned) := h.setPhase hi nofun nofun nofun
  refine hreturned.leave (fun d hd hserver => ?_) s.expired
  obtain ⟨j, hj⟩ := List.getElem?_of_mem hd
  obtain ⟨c', hc', ⟨rfl, rfl⟩ | ⟨hne, rfl⟩⟩ := getElem?_setPhase hj
  · rfl
  · by_contra hcritical
    exact hne (h.exclusive hc' hi (Bool.not_eq_false _ ▸ hcritical) hc)

theorem LockInv.put (h : LockInv s) {i version : Nat} {c : UpdateCall} (hi : s.calls[i]? = some c)
    (hc : c.phase = .read version) (committed : RouteTable) :
    LockInv { s.setPhase i .written with committed := committed } := by
  have hcritical : c.phase.critical = true := by rw [hc]; rfl
  have hwritten : LockInv (s.setPhase i .written) :=
    h.setPhase hi (fun _ => LockPhase.active_of_critical hcritical) (fun _ => h.owner i c hi hcritical) nofun
  refine ⟨hwritten.owner, hwritten.one, fun j d v hj hv => ?_⟩
  -- a second call that has read a version would be inside the lock too
  obtain ⟨c', hc', ⟨rfl, rfl⟩ | ⟨hne, rfl⟩⟩ := getElem?_setPhase hj
  · cases hv
  · exact absurd (h.exclusive hc' hi (by rw [hv]; rfl) hcritical) hne

theorem lockInv_step {a : LockAct} (h : LockInv s) (hex : Exclusive s a) (hstep : lockStep s a = some s') :
    LockInv s' := by
  cases a with
  | call server table mu =>
    unfold lockStep at hstep
    dsimp only at hstep
    split_ifs at hstep with hmu hexpired
    · cases hstep
      exact h.call rfl (fun _ => id) nofun
    · cases hstep
      refine h.call rfl (fun _ => LeaseQueue.owner_join) fun _ d hd hserver => ?_
      -- two calls that hold `r.mu` exclude each other
      by_contra hactive
      obtain ⟨hd', rfl⟩ := hex d hd hserver (Bool.not_eq_false _ ▸ hactive)
      refine hmu ?_
      simp only [Bool.true_and, List.any_eq_true]
      exact ⟨d, hd, by simp [hserver, hd', Bool.not_eq_false _ ▸ hactive]⟩
  | acquire i =>
    unfold lockStep at hstep
    dsimp only at hstep
    split at hstep
    · rename_i server table mu hi
      split_ifs at hstep with howner
      cases hstep
      exact h.setPhase hi (fun _ => rfl) (fun _ => howner) nofun
    · cases hstep
  | giveUp i cancelled =>
    unfold lockStep at hstep
    dsimp only at hstep
    split at hstep
    · rename_i server table mu hi
      have hreturned : LockInv (s.setPhase i .returned) := h.setPhase hi nofun nofun nofun
      split_ifs at hstep
      · cases hstep
        refine hreturned.leave (fun d hd hserver => ?_) s.expired
        obtain ⟨j, hj⟩ := List.getElem?_of_mem hd
        obtain ⟨c', hc', ⟨rfl, rfl⟩ | ⟨hne, rfl⟩⟩ := getElem?_setPhase hj
        · rfl
        · by_contra hcritical
          have hactive := LockPhase.active_of_critical (Bool.not_eq_false _ ▸ hcritical)
          exact hne (h.one j i d _ hc' hi hactive rfl hserver)
      · cases hstep
        exact hreturned
    · cases hstep
  | read i =>
    unfold lockStep at hstep
    dsimp only at hstep
    split at hstep
    · rename_i server table mu hi
      cases hstep
      refine h.setPhase hi (fun _ => rfl) (fun _ => h.owner i _ hi rfl) fun v hv => ?_
      cases hv
      rfl
    · cases hstep
  | put i =>
    unfold lockStep at hstep
    dsimp only at hstep
    split at hstep
    · rename_i server table mu version hi
      cases hstep
      exact h.put hi rfl _
    · cases hstep
  | unlock i released =>
    unfold lockStep at hstep
    dsimp only at hstep
    split at hstep
    · rename_i c hi
      split_ifs at hstep with hcritical hreleased
      · cases hstep
        exact h.unlock hi hcritical
      · cases hstep
        exact h.setPhase hi nofun nofun nofun
    · cases hstep
  | expire server =>
    cases hstep
    exact h.leave hex _

/-! ## Commits are atomic -/

/-- A step commits its table with the next version, or leaves the committed table alone. -/
theorem committed_step {a : LockAct} (h : LockInv s) (hstep : lockStep s a = some s') :
    Steps Committed s.committed (lockEvents s a) s'.committed := by
  cases a with
  | put i =>
    unfold lockStep at hstep
    dsimp only at hstep
    split at hstep
    · rename_i server table mu version hi
      cases hstep
      simp only [lockEvents, hi]
      rw [h.fresh i _ version hi rfl]
      exact .single rfl
    · cases hstep
  | call server table mu =>
    unfold lockStep at hstep
    dsimp only at hstep
    split_ifs at hstep <;> cases hstep <;> exact .nil
  | acquire i | giveUp i cancelled | read i | unlock i released =>
    unfold lockStep at hstep
    dsimp only at hstep
    split at hstep
    · (try split_ifs at hstep) <;> cases hstep <;> exact .nil
    · cases hstep
  | expire server =>
    cases hstep
    exact .nil

theorem version_of_steps {t t' : RouteTable} {es : List (String × RouteTable)} (h : Steps Committed t es t') :
    t'.version = t.version + es.length := by
  induction h with
  | nil => rfl
  | cons hfirst _ ih =>
    rw [ih, hfirst, List.length_cons]
    show _ + 1 + _ = _
    omega

end

/-- **The lock makes a commit atomic.** However the calls of any number of metadata servers interleave, fail and give
up, if a call without `r.mu` is alone in its process and no session ends inside the lock then every table is put with
the version after the one it replaces, and no version is used twice. -/
theorem locked_update_atomic {committed : RouteTable} {as : List LockAct} {s : LockSys}
    (hex : Along lockStep Exclusive (.start committed) as) (hrun : run lockStep (.start committed) as = some s) :
    Steps Committed committed (trace lockStep lockEvents (.start committed) as) s.committed ∧
      s.committed.version = committed.version + (trace lockStep lockEvents (.start committed) as).length := by
  have hsteps : Steps Committed (LockSys.start committed).committed
      (trace lockStep lockEvents (.start committed) as) s.committed :=
    steps_of_run (P := LockInv) (fun s a s' h hc hstep => lockInv_step h hc hstep)
      (fun s a s' h _ hstep => committed_step h hstep) (lockInv_start committed) hex hrun
  exact ⟨hsteps, version_of_steps hsteps⟩

/-- Two servers: the second waits until the first has unlocked. -/
def twoServers : List LockAct :=
  [.call "M1" .new true, .call "M2" .new false, .acquire 0, .read 0, .put 0, .unlock 0 true, .acquire 1, .read 1, .put 1]

theorem locked_update_atomic_two : ∃ s, run lockStep (.start .new) twoServers = some s ∧
    s.committed.version = (RouteTable.new).version + 2 :=
  ⟨_, rfl, (@locked_update_atomic .new twoServers _ (by decide) rfl).2⟩

/-- A rebalance and a promotion of one process hold the lock together, and both commit version 2. -/
example : (run lockStep (.start .new)
    [.call "M1" .new true, .call "M1" .new false, .acquire 0, .acquire 1, .read 0, .read 1, .put 0, .unlock 0 true,
      .put 1]).map (·.committed.version) = some 2 := by
  decide

/-! ## Ended sessions -/

/-- The session of the server has ended, and no call of it is under way. -/
def Disabled (server : String) (s : LockSys) : Prop :=
  server ∈ s.expired ∧ ∀ c ∈ s.calls, c.server = server → c.phase = .returned

section
variable {server : String} {s s' : LockSys}

/-- A call that has not returned is another server's. -/
theorem Disabled.ne (h : Disabled server s) {i : Nat} {c : UpdateCall} (hi : s.calls[i]? = some c)
    (hc : c.phase ≠ .returned) : c.server ≠ server := fun heq => hc (h.2 c (List.mem_of_getElem? hi) heq)

theorem Disabled.setPhase (h : Disabled server s) {i : Nat} {c : UpdateCall} (hi : s.calls[i]? = some c)
    (hc : c.phase ≠ .returned) (phase : LockPhase) : ∀ d ∈ (s.setPhase i phase).calls, d.server = server →
      d.phase = .returned := by
  intro d hd hserver
  obtain ⟨j, hj⟩ := List.getElem?_of_mem hd
  obtain ⟨c', hc', ⟨rfl, rfl⟩ | ⟨-, rfl⟩⟩ := getElem?_setPhase hj
  · rw [hi] at hc'
    cases hc'
    exact absurd (show c.server = server from hserver) (h.ne hi hc)
  · exact h.2 d (List.mem_of_getElem? hc') hserver

theorem disabled_step {a : LockAct} (h : Disabled server s) (hstep : lockStep s a = some s') : Disabled server s' := by
  cases a with
  | call other table mu =>
    unfold lockStep at hstep
    dsimp only at hstep
    split_ifs at hstep with hmu hexpired
    · cases hstep
      refine ⟨h.1, fun c hc hserver => ?_⟩
      rcases List.mem_append.1 hc with hold | hnew
      · exact h.2 c hold hserver
      · rw [List.mem_singleton.1 hnew]
    · cases hstep
      refine ⟨h.1, fun c hc hserver => ?_⟩
      rcases List.mem_append.1 hc with hold | hnew
      · exact h.2 c hold hserver
      · obtain rfl := List.mem_singleton.1 hnew
        exact absurd h.1 (hserver ▸ hexpired)
  | acquire i | giveUp i cancelled | read i | put i =>
    unfold lockStep at hstep
    dsimp only at hstep
    split at hstep
    · rename_i hi
      (try split_ifs at hstep) <;> cases hstep <;> exact ⟨h.1, h.setPhase hi nofun _⟩
    · cases hstep
  | unlock i released =>
    unfold lockStep at hstep
    dsimp only at hstep
    split at hstep
    · rename_i c hi
      split_ifs at hstep with hcritical hreleased
      · cases hstep
        exact ⟨h.1, h.setPhase hi (fun heq => by rw [heq] at hcritical; cases hcritical) _⟩
      · cases hstep
        exact ⟨h.1, h.setPhase hi (fun heq => by rw [heq] at hcritical; cases hcritical) _⟩
    · cases hstep
  | expire other =>
    cases hstep
    exact ⟨List.mem_cons_of_mem _ h.1, h.2⟩

end

end RocksKV.Metadata
