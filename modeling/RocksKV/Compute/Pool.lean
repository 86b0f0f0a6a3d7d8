import RocksKV.Lib.OrdMap
import RocksKV.Lib.Run
/-!
# The connections to the storage nodes (`pkg/compute/pool.go:68-172`)

| here | there |
| --- | --- |
| `PoolAct.getConn`    | a request calls `getConn` (`:69`) |
| `PoolAct.lookUp`     | the section under `RLock` (`:71-73`) |
| `PoolAct.check`      | `conn.GetState()`, outside any lock (`:75-80`) |
| `PoolAct.forget`     | `delete(p.conns, addr)` under `Lock` (`:82-84`) |
| `PoolAct.connect`    | the section under `Lock` (`:88-109`): the second look, `dial` and the store |
| `PoolAct.removeConn` | `RemoveConn` (`:157-169`) |
| `PoolAct.close`      | `Close` (`:137-154`) |

A connection is known by the number of connections dialled before it, so two connections to one address differ. State 4
is `Shutdown`: `conn.Close()` is the only way into it, and only `Close` and `RemoveConn` call that, on what they take out
of the map under the lock. So what is in the map is open (`returned_conn_open`), and the second look of `getConn` may do
without the state.

**Bug**: `forget` deletes whatever the map holds under the address by then. A request that saw a connection before
`RemoveConn` closed it takes the one another request has dialled since out of the map; nobody closes it any more.
`kept_unless_forgotten` says that this is the only way to lose one.
-/

namespace RocksKV.Compute

open Lib

inductive ConnPhase
  | started
  | found (conn : Nat)
  /-- It has seen a connection that is shut down. -/
  | shutdown
  | missing
  | returned (result : Except String Nat)

namespace ConnPhase

/-- The connection the call has in its hands. -/
def conn : ConnPhase → Option Nat
  | found c => some c
  | returned (.ok c) => some c
  | _ => none

end ConnPhase

/-- A call of `getConn`. -/
structure ConnCall where
  addr  : String
  phase : ConnPhase

structure ConnectionPool where
  conns   : OrdMap String Nat
  /-- The addresses the connections were dialled with, in the order of dialling. -/
  dialled : List String
  closed  : List Nat
  calls   : List ConnCall

inductive PoolAct
  | getConn (addr : String)
  | lookUp (i : Nat)
  | check (i : Nat)
  | forget (i : Nat)
  | connect (i : Nat) (dialErr : Option String)
  | removeConn (addr : String)
  | close

namespace ConnectionPool

def new : ConnectionPool := { conns := .empty, dialled := [], closed := [], calls := [] }

def setCall (s : ConnectionPool) (i : Nat) (call : ConnCall) : ConnectionPool := { s with calls := s.calls.set i call }

end ConnectionPool

def poolStep (s : ConnectionPool) : PoolAct → Option ConnectionPool
  | .getConn addr => some { s with calls := s.calls ++ [⟨addr, .started⟩] }
  | .lookUp i =>
    match s.calls[i]? with
    | some ⟨addr, .started⟩ =>
      match s.conns.get addr with
      | some conn => some (s.setCall i ⟨addr, .found conn⟩)
      | none => some (s.setCall i ⟨addr, .missing⟩)
    | _ => none
  | .check i =>
    match s.calls[i]? with
    | some ⟨addr, .found conn⟩ =>
      if conn ∈ s.closed then some (s.setCall i ⟨addr, .shutdown⟩)
      else some (s.setCall i ⟨addr, .returned (.ok conn)⟩)
    | _ => none
  | .forget i =>
    match s.calls[i]? with
    | some ⟨addr, .shutdown⟩ => some { s.setCall i ⟨addr, .missing⟩ with conns := s.conns.erase addr }
    | _ => none
  | .connect i dialErr =>
    match s.calls[i]? with
    | some ⟨addr, .missing⟩ =>
      match s.conns.get addr, dialErr with
      | some conn, _ => some (s.setCall i ⟨addr, .returned (.ok conn)⟩)
      | none, some err => some (s.setCall i ⟨addr, .returned (.error s!"failed to dial {addr}: {err}")⟩)
      | none, none =>
        let conn := s.dialled.length
        some { s.setCall i ⟨addr, .returned (.ok conn)⟩ with
          conns := s.conns.insert addr conn, dialled := s.dialled ++ [addr] }
    | _ => none
  | .removeConn addr =>
    match s.conns.get addr with
    | some conn => some { s with conns := s.conns.erase addr, closed := conn :: s.closed }
    | none => some s
  | .close => some { s with conns := .empty, closed := s.conns.values ++ s.closed }

/-! ## What is in the map is open -/

structure PoolInv (s : ConnectionPool) : Prop where
  pooled : ∀ (addr : String) (c : Nat), s.conns.get addr = some c → s.dialled[c]? = some addr ∧ c ∉ s.closed
  closed : ∀ c ∈ s.closed, c < s.dialled.length
  held   : ∀ call ∈ s.calls, ∀ c ∈ call.phase.conn, s.dialled[c]? = some call.addr

theorem poolInv_new : PoolInv .new where
  pooled _ _ h := by cases h
  closed _ h := by cases h
  held _ h := by cases h

section
variable {s s' : ConnectionPool}

theorem PoolInv.setCall (h : PoolInv s) (i : Nat) {call : ConnCall}
    (hheld : ∀ c ∈ call.phase.conn, s.dialled[c]? = some call.addr) : PoolInv (s.setCall i call) where
  pooled := h.pooled
  closed := h.closed
  held call' hmem := by
    rcases List.mem_or_eq_of_mem_set hmem with hold | rfl
    · exact h.held call' hold
    · exact hheld

/-- A call without a connection. -/
theorem PoolInv.setCall_none (h : PoolInv s) (i : Nat) {call : ConnCall} (hnone : call.phase.conn = none) :
    PoolInv (s.setCall i call) :=
  h.setCall i fun c hc => by
    rw [hnone] at hc
    cases hc

theorem PoolInv.erase (h : PoolInv s) (addr : String) : PoolInv { s with conns := s.conns.erase addr } where
  pooled a c hget := by
    rw [OrdMap.get_erase] at hget
    split_ifs at hget
    exact h.pooled a c hget
  closed := h.closed
  held := h.held

/-- Connections that leave the map may be closed. -/
theorem PoolInv.shut (h : PoolInv s) {conns : OrdMap String Nat} {cs : List Nat}
    (hleft : ∀ (addr : String) (c : Nat), conns.get addr = some c → s.conns.get addr = some c ∧ c ∉ cs)
    (hcs : ∀ c ∈ cs, ∃ addr, s.conns.get addr = some c) :
    PoolInv { s with conns := conns, closed := cs ++ s.closed } where
  pooled addr c hget := by
    obtain ⟨hold, hne⟩ := hleft addr c hget
    obtain ⟨hdialled, hopen⟩ := h.pooled addr c hold
    exact ⟨hdialled, List.not_mem_append hne hopen⟩
  closed c hc := by
    rcases List.mem_append.1 hc with hnew | hold
    · obtain ⟨addr, hget⟩ := hcs c hnew
      exact (List.getElem?_eq_some_iff.1 (h.pooled addr c hget).1).1
    · exact h.closed c hold
  held := h.held

/-- Two addresses share no connection. -/
theorem PoolInv.addr_unique (h : PoolInv s) {a b : String} {c : Nat} (ha : s.conns.get a = some c)
    (hb : s.conns.get b = some c) : a = b :=
  Option.some.inj ((h.pooled a c ha).1.symm.trans (h.pooled b c hb).1)

theorem PoolInv.removeConn (h : PoolInv s) {addr : String} {c : Nat} (hget : s.conns.get addr = some c) :
    PoolInv { s with conns := s.conns.erase addr, closed := c :: s.closed } := by
  refine h.shut (fun a d hd => ?_) fun d hd => ⟨addr, by rw [hget, List.mem_singleton.1 hd]⟩
  rw [OrdMap.get_erase] at hd
  split_ifs at hd with hne
  refine ⟨hd, fun hmem => hne ?_⟩
  rw [List.mem_singleton.1 hmem] at hd
  exact h.addr_unique hd hget

theorem PoolInv.close (h : PoolInv s) :
    PoolInv { s with conns := .empty, closed := s.conns.values ++ s.closed } :=
  h.shut (fun _ _ hget => by cases hget) fun _ hc => OrdMap.mem_values.1 hc

theorem getElem?_dialled_concat {l : List String} {c : Nat} {addr b : String} (h : l[c]? = some addr) :
    (l ++ [b])[c]? = some addr := by
  rw [List.getElem?_append_left (List.getElem?_eq_some_iff.1 h).1, h]

/-- A connection that has just been dialled is neither closed nor another one. -/
theorem PoolInv.dial (h : PoolInv s) (i : Nat) (addr : String) :
    PoolInv { s.setCall i ⟨addr, .returned (.ok s.dialled.length)⟩ with
      conns := s.conns.insert addr s.dialled.length, dialled := s.dialled ++ [addr] } where
  pooled a c hget := by
    rw [OrdMap.get_insert] at hget
    split_ifs at hget with heq
    · cases hget
      subst heq
      exact ⟨List.getElem?_concat_length, fun hc => Nat.lt_irrefl _ (h.closed _ hc)⟩
    · obtain ⟨hdialled, hopen⟩ := h.pooled a c hget
      exact ⟨getElem?_dialled_concat hdialled, hopen⟩
  closed c hc := by
    have hlt := h.closed c hc
    rw [List.length_append, List.length_singleton]
    omega
  held call hmem c hc := by
    rcases List.mem_or_eq_of_mem_set hmem with hold | rfl
    · exact getElem?_dialled_concat (h.held call hold c hc)
    · cases hc
      exact List.getElem?_concat_length

theorem poolInv_step (s : ConnectionPool) (a : PoolAct) (s' : ConnectionPool) (h : PoolInv s)
    (hstep : poolStep s a = some s') : PoolInv s' := by
  cases a with
  | getConn addr =>
    cases hstep
    refine ⟨h.pooled, h.closed, fun call hmem c hc => ?_⟩
    rcases List.mem_append.1 hmem with hold | hnew
    · exact h.held call hold c hc
    · rw [List.mem_singleton.1 hnew] at hc
      cases hc
  | lookUp i =>
    unfold poolStep at hstep
    dsimp only at hstep
    split at hstep
    · rename_i addr hi
      split at hstep
      · rename_i conn hget
        cases hstep
        refine h.setCall i fun c hc => ?_
        cases hc
        exact (h.pooled addr conn hget).1
      · cases hstep
        exact h.setCall_none i rfl
    · cases hstep
  | check i =>
    unfold poolStep at hstep
    dsimp only at hstep
    split at hstep
    · rename_i addr conn hi
      split_ifs at hstep
      · cases hstep
        exact h.setCall_none i rfl
      · cases hstep
        exact h.setCall i (h.held ⟨addr, .found conn⟩ (List.mem_of_getElem? hi))
    · cases hstep
  | forget i =>
    unfold poolStep at hstep
    dsimp only at hstep
    split at hstep
    · rename_i addr hi
      cases hstep
      exact (h.setCall_none i rfl).erase addr
    · cases hstep
  | connect i dialErr =>
    unfold poolStep at hstep
    dsimp only at hstep
    split at hstep
    · rename_i addr hi
      split at hstep
      · rename_i conn hget
        cases hstep
        refine h.setCall i fun c hc => ?_
        cases hc
        exact (h.pooled addr conn hget).1
      · cases hstep
        exact h.setCall_none i rfl
      · cases hstep
        exact h.dial i addr
    · cases hstep
  | removeConn addr =>
    unfold poolStep at hstep
    dsimp only at hstep
    split at hstep
    · rename_i conn hget
      cases hstep
      exact h.removeConn hget
    · cases hstep
      exact h
  | close =>
    cases hstep
    exact h.close

end

/-- The step in which a call returns a connection leaves that connection open. -/
theorem open_of_returned {s s' : ConnectionPool} {a : PoolAct} (h : PoolInv s) (hstep : poolStep s a = some s') {i : Nat}
    {call : ConnCall} (hi : s'.calls[i]? = some call) {c : Nat} (hret : call.phase = .returned (.ok c)) :
    s.calls[i]? = some call ∨ c ∉ s'.closed := by
  -- the calls other than the one that goes on are as before
  have hset : ∀ {j : Nat} {call' : ConnCall}, (s.setCall j call').calls[i]? = some call →
      s.calls[i]? = some call ∨ call = call' := fun hj =>
    (getElem?_set_eq_some hj).symm.imp And.right And.right
  cases a with
  | getConn addr =>
    cases hstep
    rcases getElem?_concat_eq_some hi with ⟨-, rfl⟩ | hold
    · cases hret
    · exact .inl hold
  | lookUp j =>
    unfold poolStep at hstep
    dsimp only at hstep
    split at hstep
    · split at hstep <;> cases hstep <;> rcases hset hi with hold | rfl <;> first | exact .inl hold | cases hret
    · cases hstep
  | check j =>
    unfold poolStep at hstep
    dsimp only at hstep
    split at hstep
    · split_ifs at hstep with hclosed <;> cases hstep <;> rcases hset hi with hold | rfl
      · exact .inl hold
      · cases hret
      · exact .inl hold
      · cases hret
        exact .inr hclosed
    · cases hstep
  | forget j =>
    unfold poolStep at hstep
    dsimp only at hstep
    split at hstep
    · cases hstep
      rcases hset hi with hold | rfl
      · exact .inl hold
      · cases hret
    · cases hstep
  | connect j dialErr =>
    unfold poolStep at hstep
    dsimp only at hstep
    split at hstep
    · rename_i addr hj
      split at hstep <;> cases hstep <;> rcases hset hi with hold | rfl
      · exact .inl hold
      · rename_i hget
        cases hret
        exact .inr (h.pooled addr _ hget).2
      · exact .inl hold
      · cases hret
      · exact .inl hold
      · cases hret
        exact .inr fun hc => Nat.lt_irrefl _ (h.closed _ hc)
    · cases hstep
  | removeConn addr =>
    unfold poolStep at hstep
    dsimp only at hstep
    split at hstep <;> cases hstep <;> exact .inl hi
  | close =>
    cases hstep
    exact .inl hi

/-- **A returned connection is usable.** However calls of `getConn` for any addresses, `RemoveConn` and `Close` are
interleaved: what a call returns was dialled with the address it asked for, and is open at the moment it is returned. -/
theorem returned_conn_open {as : List PoolAct} {a : PoolAct} {s s' : ConnectionPool}
    (hrun : run poolStep .new as = some s) (hstep : poolStep s a = some s') {i : Nat} {call : ConnCall} {c : Nat}
    (hi : s'.calls[i]? = some call) (hret : call.phase = .returned (.ok c)) :
    s'.dialled[c]? = some call.addr ∧ (s.calls[i]? = some call ∨ c ∉ s'.closed) := by
  have h : PoolInv s := run_inv poolInv_step poolInv_new hrun
  have h' : PoolInv s' := poolInv_step s a s' h hstep
  refine ⟨h'.held call (List.mem_of_getElem? hi) c ?_, open_of_returned h hstep hi hret⟩
  rw [hret]
  rfl

/-- The second of two calls finds, at its second look, what the first has dialled. -/
theorem returned_conn_open_second_look :
    ∃ s s' : ConnectionPool, run poolStep .new [.getConn "s1", .getConn "s1", .lookUp 0, .lookUp 1, .connect 0 none] =
      some s ∧ poolStep s (.connect 1 none) = some s' ∧ s'.dialled[0]? = some "s1" ∧ 0 ∉ s'.closed := by
  refine ⟨_, _, rfl, rfl, ?_⟩
  obtain ⟨hdialled, hopen⟩ := @returned_conn_open
    [.getConn "s1", .getConn "s1", .lookUp 0, .lookUp 1, .connect 0 none] (.connect 1 none) _ _ rfl rfl 1
    ⟨"s1", .returned (.ok 0)⟩ 0 rfl rfl
  refine ⟨hdialled, hopen.resolve_left fun h => ?_⟩
  cases h

/-! ## What is open is in the map -/

/-- The pool knows every connection that is open. -/
def Kept (s : ConnectionPool) : Prop :=
  ∀ (c : Nat) (addr : String), s.dialled[c]? = some addr → c ∉ s.closed → s.conns.get addr = some c

/-- A call that deletes the entry of its address finds none. -/
def ForgetsNothing (s : ConnectionPool) : PoolAct → Prop
  | .forget i => ∀ call ∈ s.calls[i]?, s.conns.get call.addr = none
  | _ => True

instance : ∀ (s : ConnectionPool) (a : PoolAct), Decidable (ForgetsNothing s a)
  | s, .forget i => inferInstanceAs (Decidable (∀ call ∈ s.calls[i]?, s.conns.get call.addr = none))
  | _, .getConn _ | _, .lookUp _ | _, .check _ | _, .connect _ _ | _, .removeConn _ | _, .close => isTrue trivial

theorem kept_step (s : ConnectionPool) (a : PoolAct) (s' : ConnectionPool) (h : PoolInv s ∧ Kept s)
    (ha : ForgetsNothing s a) (hstep : poolStep s a = some s') : PoolInv s' ∧ Kept s' := by
  refine ⟨poolInv_step s a s' h.1 hstep, ?_⟩
  obtain ⟨hinv, hkept⟩ := h
  cases a with
  | getConn addr =>
    cases hstep
    exact hkept
  | lookUp i =>
    unfold poolStep at hstep
    dsimp only at hstep
    split at hstep
    · split at hstep <;> cases hstep <;> exact hkept
    · cases hstep
  | check i =>
    unfold poolStep at hstep
    dsimp only at hstep
    split at hstep
    · split_ifs at hstep <;> cases hstep <;> exact hkept
    · cases hstep
  | forget i =>
    unfold poolStep at hstep
    dsimp only at hstep
    split at hstep
    · rename_i addr hi
      cases hstep
      intro c a hdialled hopen
      have hget := hkept c a hdialled hopen
      have hne : a ≠ addr := by
        rintro rfl
        rw [ha _ hi] at hget
        cases hget
      show (s.conns.erase addr).get a = some c
      rw [OrdMap.get_erase, if_neg hne, hget]
    · cases hstep
  | connect i dialErr =>
    unfold poolStep at hstep
    dsimp only at hstep
    split at hstep
    · rename_i addr hi
      split at hstep
      · cases hstep
        exact hkept
      · cases hstep
        exact hkept
      · rename_i hget
        cases hstep
        intro c a hdialled hopen
        show (s.conns.insert addr s.dialled.length).get a = some c
        rcases getElem?_concat_eq_some hdialled with ⟨rfl, rfl⟩ | hold
        · exact OrdMap.get_insert_self ..
        · have hold' := hkept c a hold hopen
          have hne : a ≠ addr := by
            rintro rfl
            rw [hget] at hold'
            cases hold'
          rw [OrdMap.get_insert_ne _ _ hne, hold']
    · cases hstep
  | removeConn addr =>
    unfold poolStep at hstep
    dsimp only at hstep
    split at hstep
    · rename_i conn hget
      cases hstep
      intro c a hdialled hopen
      rw [List.mem_cons, not_or] at hopen
      have hold := hkept c a hdialled hopen.2
      have hne : a ≠ addr := by
        rintro rfl
        rw [hget] at hold
        exact hopen.1 (Option.some.inj hold).symm
      show (s.conns.erase addr).get a = some c
      rw [OrdMap.get_erase, if_neg hne, hold]
    · cases hstep
      exact hkept
  | close =>
    cases hstep
    intro c a hdialled hopen
    rw [List.mem_append, not_or] at hopen
    exact absurd (OrdMap.mem_values.2 ⟨a, hkept c a hdialled hopen.2⟩) hopen.1

/-- **A connection is lost only by `delete`.** In every interleaving in which the calls that delete an entry find none,
the pool holds every connection that is open, so `Close` leaves none open. -/
theorem kept_unless_forgotten {as : List PoolAct} {s : ConnectionPool} (hrun : run poolStep .new as = some s)
    (hforget : Along poolStep ForgetsNothing .new as) : Kept s := by
  have hnew : PoolInv .new ∧ Kept .new := ⟨poolInv_new, fun _ _ h => by cases h⟩
  exact (run_inv_along kept_step hnew hforget hrun).2

/-- `RemoveConn` between the look at the map and the look at the state, and nobody dials in between. -/
theorem kept_unless_forgotten_redialled :
    ∃ s : ConnectionPool, run poolStep .new [.getConn "s1", .lookUp 0, .connect 0 none, .getConn "s1", .lookUp 1,
      .removeConn "s1", .check 1, .forget 1, .connect 1 none] = some s ∧ Kept s := by
  refine ⟨_, rfl, @kept_unless_forgotten [.getConn "s1", .lookUp 0, .connect 0 none, .getConn "s1", .lookUp 1,
    .removeConn "s1", .check 1, .forget 1, .connect 1 none] _ rfl ?_⟩
  decide +kernel

/-- **Bug**: call 2 dials connection 1 before call 1 deletes the entry. Connection 1 is open and in no map. -/
example : ∃ s : ConnectionPool, run poolStep .new [.getConn "s1", .lookUp 0, .connect 0 none, .getConn "s1", .lookUp 1,
    .removeConn "s1", .check 1, .getConn "s1", .lookUp 2, .connect 2 none, .forget 1, .connect 1 none, .close] = some s ∧
    s.dialled[1]? = some "s1" ∧ 1 ∉ s.closed ∧ s.conns.values = [] :=
  ⟨_, rfl, rfl, by decide, rfl⟩

/-! ## One connection for each address -/

namespace PoolAct

def removes : PoolAct → Bool
  | removeConn _ | close => true
  | _ => false

end PoolAct

/-- Nothing has been closed, and no call has seen otherwise. -/
structure NothingClosed (s : ConnectionPool) : Prop where
  closed : s.closed = []
  seen   : ∀ call ∈ s.calls, call.phase ≠ .shutdown

section
variable {s : ConnectionPool}

theorem NothingClosed.setCall (h : NothingClosed s) (i : Nat) {call : ConnCall} (hphase : call.phase ≠ .shutdown) :
    NothingClosed (s.setCall i call) where
  closed := h.closed
  seen call' hmem := by
    rcases List.mem_or_eq_of_mem_set hmem with hold | rfl
    · exact h.seen call' hold
    · exact hphase

end

theorem nothingClosed_step (s : ConnectionPool) (a : PoolAct) (s' : ConnectionPool) (h : NothingClosed s)
    (ha : a.removes = false) (hstep : poolStep s a = some s') : NothingClosed s' := by
  cases a with
  | getConn addr =>
    cases hstep
    refine ⟨h.closed, fun call hmem => ?_⟩
    rcases List.mem_append.1 hmem with hold | hnew
    · exact h.seen call hold
    · rw [List.mem_singleton.1 hnew]
      nofun
  | lookUp i =>
    unfold poolStep at hstep
    dsimp only at hstep
    split at hstep
    · split at hstep <;> cases hstep <;> exact h.setCall i nofun
    · cases hstep
  | check i =>
    unfold poolStep at hstep
    dsimp only at hstep
    split at hstep
    · split_ifs at hstep with hclosed
      · rw [h.closed] at hclosed
        cases hclosed
      · cases hstep
        exact h.setCall i nofun
    · cases hstep
  | forget i =>
    unfold poolStep at hstep
    dsimp only at hstep
    split at hstep
    · rename_i hi
      exact absurd rfl (h.seen _ (List.mem_of_getElem? hi))
    · cases hstep
  | connect i dialErr =>
    unfold poolStep at hstep
    dsimp only at hstep
    split at hstep
    · split at hstep <;> cases hstep
      · exact h.setCall i nofun
      · exact h.setCall i nofun
      · refine ⟨h.closed, (h.setCall i ?_).seen⟩
        nofun
    · cases hstep
  | removeConn addr => cases ha
  | close => cases ha

theorem NothingClosed.forgetsNothing {s s' : ConnectionPool} {a : PoolAct} (h : NothingClosed s)
    (hstep : poolStep s a = some s') : ForgetsNothing s a := by
  cases a with
  | forget i =>
    unfold poolStep at hstep
    dsimp only at hstep
    split at hstep
    · rename_i hi
      exact absurd rfl (h.seen _ (List.mem_of_getElem? hi))
    · cases hstep
  | getConn | lookUp | check | connect | removeConn | close => trivial

/-- **One connection for each address.** As long as nothing is removed from the pool, every interleaving of calls of
`getConn` dials an address at most once with success, and all calls for it that return one return the same connection. -/
theorem one_conn_per_address {as : List PoolAct} {s : ConnectionPool} (hrun : run poolStep .new as = some s)
    (has : ∀ a ∈ as, a.removes = false) : s.dialled.Nodup ∧
      ∀ call ∈ s.calls, ∀ call' ∈ s.calls, call.addr = call'.addr → ∀ c c' : Nat, call.phase = .returned (.ok c) →
        call'.phase = .returned (.ok c') → c = c' := by
  have hnew : (PoolInv .new ∧ Kept .new) ∧ NothingClosed .new :=
    ⟨⟨poolInv_new, fun _ _ h => by cases h⟩, rfl, fun _ h => by cases h⟩
  obtain ⟨⟨hinv, hkept⟩, hnone⟩ :=
    run_inv_along (C := fun _ a => a.removes = false) (P := fun s => (PoolInv s ∧ Kept s) ∧ NothingClosed s)
      (fun s a s' h ha hstep =>
        ⟨kept_step s a s' h.1 (h.2.forgetsNothing hstep) hstep, nothingClosed_step s a s' h.2 ha hstep⟩)
      hnew (along_of_forall_mem fun a ha _ => has a ha) hrun
  -- a connection is the one the map has for its address
  have hone : ∀ (c c' : Nat) (addr : String), s.dialled[c]? = some addr → s.dialled[c']? = some addr → c = c' := by
    intro c c' addr hc hc'
    have hopen : ∀ d : Nat, d ∉ s.closed := fun d => by
      rw [hnone.closed]
      exact List.not_mem_nil
    exact Option.some.inj ((hkept c addr hc (hopen c)).symm.trans (hkept c' addr hc' (hopen c')))
  refine ⟨List.nodup_iff_getElem?_ne_getElem?.2 fun c c' hlt hlen heq => ?_,
    fun call hmem call' hmem' haddr c c' hret hret' => ?_⟩
  · have hsome : s.dialled[c']? = some s.dialled[c'] := List.getElem?_eq_getElem hlen
    exact Nat.ne_of_lt hlt (hone c c' _ (heq.trans hsome) hsome)
  · have hc := hinv.held call hmem c (by rw [hret]; rfl)
    have hc' := hinv.held call' hmem' c' (by rw [hret']; rfl)
    rw [haddr] at hc
    exact hone c c' _ hc hc'

/-- Three calls at once, one of which cannot dial at first. -/
theorem one_conn_per_address_three :
    ∃ s : ConnectionPool, run poolStep .new [.getConn "s1", .getConn "s1", .getConn "s1", .lookUp 0, .lookUp 1,
      .connect 0 (some "timeout"), .connect 1 none, .lookUp 2, .check 2] = some s ∧ s.dialled.Nodup := by
  refine ⟨_, rfl, (@one_conn_per_address [.getConn "s1", .getConn "s1", .getConn "s1", .lookUp 0, .lookUp 1,
    .connect 0 (some "timeout"), .connect 1 none, .lookUp 2, .check 2] _ rfl ?_).1⟩
  simp [PoolAct.removes]

end RocksKV.Compute
