import RocksKV.Client.Config
/-!
# Retries in the clients (`sdk/go/rockskv/client.go:153-213`, `pkg/client/client.go:142-199`)

| here | there |
| --- | --- |
| `CallOutcome`             | what `fn` returns, as `status.FromError` sees it (`sdk client.go:186-196`) |
| `getStub`                 | `getStub` (`:153-171`); which stub is picked shows in the outcome of the call only |
| `callWithRetry`           | `callWithRetry` (`:173-213`), with the calls it has made and how long it has slept |
| `requestWithRetry`        | the loop of `Put` and `Delete` in `pkg/client/client.go` (`:149-168`, `:179-198`) |
| `put`, `delete`           | these two (`:142-199`) |

`CallEnv` says how each call ends and whether the client has been closed by then. Counters are 64-bit integers, and
the loops carry fuel.

**Bug**: both loops run while `attempt <= retries` and fall through to `return lastErr`. With a negative number of
retries, which every way to configure a client accepts, the body never runs, and nil is returned without a call. With
the largest number `callWithRetry` never stops: `attempt` wraps to a negative number.
-/

namespace RocksKV.Client

inductive CallOutcome
  | ok
  /-- An error that carries no gRPC status. -/
  | plain (err : String)
  | status (code : UInt32) (err : String)
  deriving DecidableEq

/-- `codes.DeadlineExceeded` -/
def deadlineExceeded : UInt32 := 4

/-- `codes.Unavailable` -/
def unavailable : UInt32 := 14

structure CallEnv where
  outcome : Nat → CallOutcome
  closed  : Nat → Bool

def SdkClient.getStub (c : SdkClient) (closed : Bool) : Except String Unit :=
  if closed then .error errClosed
  else if c.stubs.length = 0 then .error "no available connections"
  else .ok ()

structure RetryState where
  attempt : Int64
  delay   : Int64
  lastErr : Option String
  /-- The calls that were made. -/
  calls   : Nat
  /-- What was slept between them. -/
  slept   : List Int64

/-- A call that has returned, or is still at it when the fuel is used up. -/
structure RetryRun where
  state    : RetryState
  returned : Option (Option String)

def retryLoop (c : SdkClient) (env : CallEnv) : Nat → RetryState → RetryRun
  | 0, st => ⟨st, none⟩
  | fuel + 1, st =>
    if ¬ st.attempt ≤ c.config.retryCount then ⟨st, some st.lastErr⟩
    else match c.getStub (env.closed st.calls) with
      | .error e => ⟨st, some (some e)⟩
      | .ok () =>
        let called := { st with calls := st.calls + 1 }
        match env.outcome st.calls with
        | .ok => ⟨called, some none⟩
        | .plain err => ⟨{ called with lastErr := some err }, some (some err)⟩
        | .status code err =>
          let failed := { called with lastErr := some err }
          if code = deadlineExceeded then ⟨failed, some (some errTimeout)⟩
          else if code = unavailable then
            if st.attempt < c.config.retryCount then
              let doubled := st.delay * 2
              retryLoop c env fuel
                { failed with
                  attempt := st.attempt + 1
                  slept := st.slept ++ [st.delay]
                  delay := if doubled ≤ c.config.maxRetryDelay then doubled else c.config.maxRetryDelay }
            else retryLoop c env fuel { failed with attempt := st.attempt + 1 }
          else ⟨failed, some (some err)⟩

def callWithRetry (c : SdkClient) (env : CallEnv) (fuel : Nat) : RetryRun :=
  retryLoop c env fuel { attempt := 0, delay := c.config.retryDelay, lastErr := none, calls := 0, slept := [] }

/-- `callWithRetry` has kept its word: nil only after a call that returned nil, at most `RetryCount + 1` calls, and a
call after another only if that one was `Unavailable`. -/
structure Honest (c : SdkClient) (env : CallEnv) (run : RetryRun) : Prop where
  success : run.returned = some none → ∃ i < run.state.calls, env.outcome i = .ok
  bounded : (run.state.calls : Int) ≤ c.config.retryCount.toInt + 1
  retries : ∀ i, i + 1 < run.state.calls → ∃ err, env.outcome i = .status unavailable err

/-! ## One turn of the loop -/

/-- **What a turn can do**: stop without another call, stop after one, or go on after one that was `Unavailable`. -/
theorem retryLoop_succ (c : SdkClient) (env : CallEnv) (fuel : Nat) (st : RetryState) :
    (¬ st.attempt ≤ c.config.retryCount ∧ retryLoop c env (fuel + 1) st = ⟨st, some st.lastErr⟩) ∨
    (∃ e, c.getStub (env.closed st.calls) = .error e ∧ retryLoop c env (fuel + 1) st = ⟨st, some (some e)⟩) ∨
    (st.attempt ≤ c.config.retryCount ∧ (∀ err, env.outcome st.calls ≠ .status unavailable err) ∧
      ∃ st' r, retryLoop c env (fuel + 1) st = ⟨st', some r⟩ ∧ st'.calls = st.calls + 1 ∧
        (r = none → env.outcome st.calls = .ok)) ∨
    (st.attempt ≤ c.config.retryCount ∧ ∃ err st', env.outcome st.calls = .status unavailable err ∧
      retryLoop c env (fuel + 1) st = retryLoop c env fuel st' ∧ st'.attempt = st.attempt + 1 ∧
      st'.calls = st.calls + 1 ∧ st'.lastErr = some err) := by
  rw [retryLoop]
  by_cases hgo : st.attempt ≤ c.config.retryCount
  · rw [if_neg (not_not.2 hgo)]
    refine .inr ?_
    cases hstub : c.getStub (env.closed st.calls) with
    | error e => exact .inl ⟨e, rfl, rfl⟩
    | ok =>
      refine .inr ?_
      cases hout : env.outcome st.calls with
      | ok => exact .inl ⟨hgo, nofun, _, none, rfl, rfl, fun _ => rfl⟩
      | plain err => exact .inl ⟨hgo, nofun, _, some err, rfl, rfl, nofun⟩
      | status code err =>
        dsimp only
        by_cases hdeadline : code = deadlineExceeded
        · rw [if_pos hdeadline]
          refine .inl ⟨hgo, fun err' heq => ?_, _, some errTimeout, rfl, rfl, nofun⟩
          cases heq
          exact absurd hdeadline (by decide)
        · rw [if_neg hdeadline]
          by_cases hcode : code = unavailable
          · rw [if_pos hcode]
            by_cases hlt : st.attempt < c.config.retryCount
            · exact .inr ⟨hgo, err, _, by rw [hcode], if_pos hlt, rfl, rfl, rfl⟩
            · exact .inr ⟨hgo, err, _, by rw [hcode], if_neg hlt, rfl, rfl, rfl⟩
          · rw [if_neg hcode]
            refine .inl ⟨hgo, fun err' heq => ?_, _, some err, rfl, rfl, nofun⟩
            cases heq
            exact hcode rfl
  · exact .inl ⟨hgo, if_pos hgo⟩

/-! ## The SDK's loop -/

theorem toInt_succ {a b : Int64} (h : a < b) : (a + 1).toInt = a.toInt + 1 := by
  have hlt := Int64.lt_iff_toInt_lt.1 h
  have hb := b.toInt_lt
  have ha := a.le_toInt
  rw [Int64.toInt_add, Int64.toInt_one]
  exact Int.bmod_eq_of_le (by omega) (by omega)

/-- **Between two turns**: the counter says how many calls were made, each of them `Unavailable`, and the last of them
has left its error. -/
structure Looping (c : SdkClient) (env : CallEnv) (st : RetryState) : Prop where
  counted : st.attempt.toInt = st.calls
  bounded : (st.calls : Int) ≤ c.config.retryCount.toInt + 1
  failed  : ∀ i < st.calls, ∃ err, env.outcome i = .status unavailable err
  lastErr : 0 < st.calls → st.lastErr ≠ none

section
variable {c : SdkClient} {env : CallEnv}

theorem looping_start (hmin : 0 ≤ c.config.retryCount) :
    Looping c env { attempt := 0, delay := c.config.retryDelay, lastErr := none, calls := 0, slept := [] } where
  counted := rfl
  bounded := by
    have hrc := Int64.le_iff_toInt_le.1 hmin
    rw [Int64.toInt_zero] at hrc
    change (0 : Int) ≤ _
    omega
  failed := nofun
  lastErr := nofun

theorem Looping.next (hmax : c.config.retryCount < Int64.maxValue) {st st' : RetryState} (h : Looping c env st)
    (hgo : st.attempt ≤ c.config.retryCount) {err : String} (hout : env.outcome st.calls = .status unavailable err)
    (hattempt : st'.attempt = st.attempt + 1) (hcalls : st'.calls = st.calls + 1) (herr : st'.lastErr = some err) :
    Looping c env st' where
  counted := by
    rw [hattempt, hcalls, toInt_succ (Int64.lt_of_le_of_lt hgo hmax), h.counted]
    rfl
  bounded := by
    have hle := Int64.le_iff_toInt_le.1 hgo
    rw [h.counted] at hle
    rw [hcalls]
    push_cast
    omega
  failed i hi := by
    rw [hcalls] at hi
    rcases Nat.lt_succ_iff_lt_or_eq.1 hi with hlt | rfl
    · exact h.failed i hlt
    · exact ⟨err, hout⟩
  lastErr _ := by simp [herr]

/-- **A run from any turn on is honest.** -/
theorem Looping.honest (hmin : 0 ≤ c.config.retryCount) (hmax : c.config.retryCount < Int64.maxValue) :
    ∀ {fuel : Nat} {st : RetryState}, Looping c env st → Honest c env (retryLoop c env fuel st)
  | 0, st, h => ⟨nofun, h.bounded, fun i hi => h.failed i (Nat.lt_of_succ_lt hi)⟩
  | fuel + 1, st, h => by
    obtain ⟨hstop, hrun⟩ | ⟨e, -, hrun⟩ | ⟨hgo, -, st', r, hrun, hcalls, hok⟩ |
      ⟨hgo, err, st', hout, hrun, hattempt, hcalls, herr⟩ := retryLoop_succ c env fuel st
    · rw [hrun]
      -- the first turn is not the one that stops: there was a call, and it has left an error
      have hpos : 0 < st.calls := by
        rw [Int64.not_le, Int64.lt_iff_toInt_lt, h.counted] at hstop
        have hrc := Int64.le_iff_toInt_le.1 hmin
        rw [Int64.toInt_zero] at hrc
        omega
      exact ⟨fun hnil => absurd (Option.some.inj hnil) (h.lastErr hpos), h.bounded,
        fun i hi => h.failed i (Nat.lt_of_succ_lt hi)⟩
    · rw [hrun]
      exact ⟨nofun, h.bounded, fun i hi => h.failed i (Nat.lt_of_succ_lt hi)⟩
    · rw [hrun]
      have hle := Int64.le_iff_toInt_le.1 hgo
      rw [h.counted] at hle
      refine ⟨fun hnil => ⟨st.calls, by simp [hcalls], hok (Option.some.inj hnil)⟩, ?_, fun i hi => h.failed i ?_⟩
      · change (st'.calls : Int) ≤ _
        rw [hcalls]
        push_cast
        omega
      · change i + 1 < st'.calls at hi
        omega
    · rw [hrun]
      exact Looping.honest hmin hmax (h.next hmax hgo hout hattempt hcalls herr)

/-- **The loop ends**, after a turn for each call it may make and one to see that it may make no more. -/
theorem Looping.returns (hmax : c.config.retryCount < Int64.maxValue) :
    ∀ {fuel : Nat} {st : RetryState}, Looping c env st → c.config.retryCount.toInt + 2 ≤ st.calls + fuel →
      (retryLoop c env fuel st).returned ≠ none
  | 0, st, h, hfuel => by
    have := h.bounded
    omega
  | fuel + 1, st, h, hfuel => by
    obtain ⟨-, hrun⟩ | ⟨e, -, hrun⟩ | ⟨-, -, st', r, hrun, -⟩ | ⟨hgo, err, st', hout, hrun, hattempt, hcalls, herr⟩ :=
      retryLoop_succ c env fuel st
    · rw [hrun]
      exact nofun
    · rw [hrun]
      exact nofun
    · rw [hrun]
      exact nofun
    · rw [hrun]
      refine (h.next hmax hgo hout hattempt hcalls herr).returns hmax ?_
      rw [hcalls]
      push_cast
      omega

/-- With the largest retry count a loop all of whose calls are `Unavailable` goes on for ever. -/
theorem retryLoop_forever (hmax : c.config.retryCount = Int64.maxValue) (hstubs : c.stubs ≠ [])
    (hout : ∀ i, ∃ err, env.outcome i = .status unavailable err) (hopen : ∀ i, env.closed i = false) :
    ∀ (fuel : Nat) (st : RetryState), (retryLoop c env fuel st).state.calls = st.calls + fuel
  | 0, _ => rfl
  | fuel + 1, st => by
    obtain ⟨hstop, -⟩ | ⟨e, hstub, -⟩ | ⟨-, hno, -⟩ | ⟨-, err, st', -, hrun, -, hcalls, -⟩ :=
      retryLoop_succ c env fuel st
    · rw [hmax] at hstop
      exact absurd (Int64.le_maxValue st.attempt) hstop
    · rw [SdkClient.getStub, hopen, if_neg (by simp), if_neg (by simpa using hstubs)] at hstub
      cases hstub
    · obtain ⟨err, herr⟩ := hout st.calls
      exact absurd herr (hno err)
    · rw [hrun, retryLoop_forever hmax hstubs hout hopen fuel st', hcalls]
      omega

end

/-- Without a turn there is no call, and nil is returned. -/
theorem callWithRetry_negative {c : SdkClient} (hneg : c.config.retryCount < 0) (env : CallEnv) (fuel : Nat) :
    (callWithRetry c env (fuel + 1)).returned = some none ∧ (callWithRetry c env (fuel + 1)).state.calls = 0 := by
  have hstop : ¬ (0 : Int64) ≤ c.config.retryCount := Int64.not_le.2 hneg
  rw [callWithRetry, retryLoop, if_pos hstop]
  exact ⟨rfl, rfl⟩

theorem stubs_of_newClient {dial : String → Option String} {opts : List ClientOption} {c : SdkClient}
    (hc : newClient dial opts = .ok c) : c.stubs ≠ [] := by
  rw [newClient] at hc
  split_ifs at hc with haddrs
  split at hc
  · cases hc
  · cases hc
    simpa using haddrs

/-- **`callWithRetry` is honest** exactly for the retry counts from zero to one below the largest. -/
theorem callWithRetry_honest_iff {c : SdkClient} (hstubs : c.stubs ≠ []) :
    (∀ env fuel, Honest c env (callWithRetry c env fuel)) ↔
      0 ≤ c.config.retryCount ∧ c.config.retryCount < Int64.maxValue := by
  constructor
  · intro h
    refine ⟨?_, ?_⟩
    · by_contra hneg
      obtain ⟨hnil, hcalls⟩ := callWithRetry_negative (Int64.not_le.1 hneg) ⟨fun _ => .ok, fun _ => false⟩ 0
      obtain ⟨i, hi, -⟩ := (h _ _).success hnil
      rw [hcalls] at hi
      cases hi
    · by_contra hlarge
      have hmax : c.config.retryCount = Int64.maxValue :=
        Int64.le_antisymm (Int64.le_maxValue _) (Int64.not_lt.1 hlarge)
      have hbound := (h ⟨fun _ => .status unavailable "", fun _ => false⟩ (2 ^ 63 + 1)).bounded
      rw [callWithRetry, retryLoop_forever hmax hstubs (fun _ => ⟨"", rfl⟩) (fun _ => rfl), hmax] at hbound
      exact absurd hbound (show ¬ ((0 + (2 ^ 63 + 1) : Nat) : Int) ≤ Int64.maxValue.toInt + 1 by decide)
  · rintro ⟨hmin, hmax⟩ env fuel
    exact (looping_start hmin).honest hmin hmax

/-! ## The loop of `pkg/client` -/

/-- The requests made and the error that is returned. `outcome` is the answer's `Success` or the error of each of
them. -/
def requestWithRetry (op : String) (maxRetries : Int64) (outcome : Nat → Except String Bool) :
    (fuel : Nat) → (i : Int64) → (sent : Nat) → (lastErr : Option String) → Option (Nat × Option String)
  | 0, _, _, _ => none
  | fuel + 1, i, sent, lastErr =>
    if ¬ i ≤ maxRetries then some (sent, lastErr)
    else match outcome sent with
      | .error err =>
        if i < maxRetries then requestWithRetry op maxRetries outcome fuel (i + 1) (sent + 1) (some err)
        else
          let retries := maxRetries.toInt
          some (sent + 1, some s!"{op} failed after {retries} retries: {err}")
      | .ok success =>
        if !success then some (sent + 1, some s!"{op} failed: server returned failure") else some (sent + 1, none)

def put (maxRetries : Int64) (outcome : Nat → Except String Bool) (fuel : Nat) : Option (Nat × Option String) :=
  requestWithRetry "put" maxRetries outcome fuel 0 0 none

def delete (maxRetries : Int64) (outcome : Nat → Except String Bool) (fuel : Nat) : Option (Nat × Option String) :=
  requestWithRetry "delete" maxRetries outcome fuel 0 0 none

/-- Nil is returned only if a request was answered with `Success`. -/
def NilMeansSuccess (request : (Nat → Except String Bool) → Nat → Option (Nat × Option String)) : Prop :=
  ∀ outcome fuel n, request outcome fuel = some (n, none) → ∃ k < n, outcome k = .ok true

section
variable {op : String} {maxRetries : Int64} {outcome : Nat → Except String Bool}

theorem succ_le_of_lt {i : Int64} (hlt : i < maxRetries) : i + 1 ≤ maxRetries := by
  rw [Int64.le_iff_toInt_le, toInt_succ hlt]
  exact Int64.lt_iff_toInt_lt.1 hlt

/-- While the counter has not passed its bound, nil is the answer to a request that succeeded. -/
theorem requestWithRetry_success {n : Nat} :
    ∀ {fuel : Nat} {i : Int64} {sent : Nat} {lastErr : Option String}, i ≤ maxRetries →
      requestWithRetry op maxRetries outcome fuel i sent lastErr = some (n, none) → ∃ k < n, outcome k = .ok true
  | 0, _, _, _, _, h => by cases h
  | fuel + 1, i, sent, lastErr, hi, h => by
    rw [requestWithRetry, if_neg (not_not.2 hi)] at h
    cases hout : outcome sent with
    | error err =>
      rw [hout] at h
      dsimp only at h
      split_ifs at h with hlt
      · exact requestWithRetry_success (succ_le_of_lt hlt) h
      · cases h
    | ok success =>
      rw [hout] at h
      cases success with
      | false => cases h
      | true =>
        cases h
        exact ⟨sent, Nat.lt_succ_self _, hout⟩

/-- Here the counter is compared once more before it is raised, so the loop ends for every bound. -/
theorem requestWithRetry_returns :
    ∀ {fuel : Nat} {i : Int64} {sent : Nat} {lastErr : Option String}, i ≤ maxRetries →
      maxRetries.toInt + 1 ≤ i.toInt + fuel → requestWithRetry op maxRetries outcome fuel i sent lastErr ≠ none
  | 0, i, _, _, hi, hfuel => by
    have := Int64.le_iff_toInt_le.1 hi
    omega
  | fuel + 1, i, sent, lastErr, hi, hfuel => by
    rw [requestWithRetry, if_neg (not_not.2 hi)]
    cases hout : outcome sent with
    | error err =>
      dsimp only
      by_cases hlt : i < maxRetries
      · rw [if_pos hlt]
        refine requestWithRetry_returns (succ_le_of_lt hlt) ?_
        rw [toInt_succ hlt]
        push_cast at hfuel
        omega
      · rw [if_neg hlt]
        exact nofun
    | ok success => cases success <;> exact nofun

end

theorem requestWithRetry_negative (op : String) {maxRetries : Int64} (hneg : ¬ 0 ≤ maxRetries)
    (outcome : Nat → Except String Bool) (fuel : Nat) :
    requestWithRetry op maxRetries outcome (fuel + 1) 0 0 none = some (0, none) := by
  rw [requestWithRetry, if_pos hneg]

theorem requestWithRetry_honest_iff (op : String) (maxRetries : Int64) :
    NilMeansSuccess (fun outcome fuel => requestWithRetry op maxRetries outcome fuel 0 0 none) ↔ 0 ≤ maxRetries := by
  constructor
  · intro h
    by_contra hneg
    obtain ⟨k, hk, -⟩ := h (fun _ => .ok true) 1 0 (requestWithRetry_negative op hneg _ 0)
    cases hk
  · intro hmin outcome fuel n
    exact requestWithRetry_success hmin

theorem requestWithRetry_ends (op : String) (maxRetries : Int64) (outcome : Nat → Except String Bool) :
    requestWithRetry op maxRetries outcome (maxRetries.toInt.toNat + 1) 0 0 none ≠ none := by
  by_cases hmin : 0 ≤ maxRetries
  · refine requestWithRetry_returns hmin ?_
    rw [Int64.toInt_zero]
    push_cast
    omega
  · rw [requestWithRetry_negative op hmin]
    exact nofun

/-! ## Both clients -/

/-- **Success is reported only for a call that succeeded**, within the bound on the calls and with retries only after
`Unavailable`, exactly when no number of retries is negative and that of the SDK is not the largest one. Then
`callWithRetry` returns; `Put` and `Delete` always do. -/
theorem clients_honest_iff {dial : String → Option String} {opts : List ClientOption} {c : SdkClient}
    (hc : newClient dial opts = .ok c) (maxRetries : Int64) :
    ((∀ env fuel, Honest c env (callWithRetry c env fuel)) ↔
      0 ≤ c.config.retryCount ∧ c.config.retryCount < Int64.maxValue) ∧
    (0 ≤ c.config.retryCount → c.config.retryCount < Int64.maxValue → ∀ env,
      (callWithRetry c env (c.config.retryCount.toInt.toNat + 2)).returned ≠ none) ∧
    (NilMeansSuccess (put maxRetries) ↔ 0 ≤ maxRetries) ∧ (NilMeansSuccess (delete maxRetries) ↔ 0 ≤ maxRetries) ∧
    ∀ outcome, put maxRetries outcome (maxRetries.toInt.toNat + 1) ≠ none ∧
      delete maxRetries outcome (maxRetries.toInt.toNat + 1) ≠ none := by
  refine ⟨callWithRetry_honest_iff (stubs_of_newClient hc), fun hmin hmax env => ?_,
    requestWithRetry_honest_iff "put" maxRetries, requestWithRetry_honest_iff "delete" maxRetries,
    fun outcome => ⟨requestWithRetry_ends "put" _ _, requestWithRetry_ends "delete" _ _⟩⟩
  refine (looping_start hmin).returns hmax ?_
  push_cast
  omega

/-- The default of three retries, in both clients. -/
theorem clients_honest_three :
    ∃ c, newClient (fun _ => none) [withAddrs ["localhost:8000"]] = .ok c ∧
      (∀ env fuel, Honest c env (callWithRetry c env fuel)) ∧ NilMeansSuccess (put 3) ∧ NilMeansSuccess (delete 3) := by
  obtain ⟨c, hc, hconfig⟩ := @newClient_ok (fun _ => none) [withAddrs ["localhost:8000"]] (by decide) (fun _ => rfl)
  obtain ⟨hsdk, -, hput, hdelete, -⟩ := clients_honest_iff hc 3
  refine ⟨c, hc, hsdk.2 ?_, hput.2 (by decide), hdelete.2 (by decide)⟩
  rw [hconfig]
  decide

/-- What `url.Parse` makes of `http://localhost:8000?retryCount=-1`. -/
def minusOneURL (uri : String) : Except String ParsedURL :=
  if uri = "http://localhost:8000?retryCount=-1" then
    .ok { host := "localhost:8000", query := fun name => if name = "retryCount" then "-1" else "" }
  else .error "parse"

/-- `rockskv://localhost:8000?retryCount=-1`: every call of the client returns nil at once, and nothing was sent. -/
theorem callWithRetry_sends_nothing :
    ∃ opts c, parseURI minusOneURL (fun _ => .error "time: invalid duration")
        "rockskv://localhost:8000?retryCount=-1" = .ok opts ∧
      newClient (fun _ => none) opts = .ok c ∧
      (∀ env fuel, (callWithRetry c env (fuel + 1)).returned = some none ∧
        (callWithRetry c env (fuel + 1)).state.calls = 0) ∧
      ∀ outcome fuel, put (-1) outcome (fuel + 1) = some (0, none) ∧ delete (-1) outcome (fuel + 1) = some (0, none) :=
  ⟨_, _, rfl, rfl, callWithRetry_negative (by decide), fun outcome fuel =>
    ⟨requestWithRetry_negative "put" (by decide) outcome fuel,
      requestWithRetry_negative "delete" (by decide) outcome fuel⟩⟩

end RocksKV.Client
