import Mathlib
/-!
# Configuring the Go SDK (`sdk/go/rockskv/client.go:38-151`, `uri.go`)

| here | there |
| --- | --- |
| `Config`, `defaultConfig`    | `Config`, `DefaultConfig` (`client.go:39-62`), without the keep-alive settings |
| `withAddrs`, `withTimeout`, … | the options (`client.go:67-100`) |
| `newClient`                  | `NewClient` with `connect` (`client.go:103-151`); `dial` says which addresses fail |
| `parseUint`, `atoi`          | `strconv.Atoi` for 64-bit integers |
| `parseURI`                   | `ParseURI` (`uri.go:28-104`); `url.Parse` and `time.ParseDuration` are parameters |

Durations are in nanoseconds. Neither the options nor `ParseURI` look at the sign of a number: a retry count may be
negative.
-/

namespace RocksKV.Client

structure Config where
  addrs         : List String
  timeout       : Int64
  poolSize      : Int64
  retryCount    : Int64
  retryDelay    : Int64
  maxRetryDelay : Int64
  deriving DecidableEq

def millisecond : Int64 := 1000000

def second : Int64 := 1000 * millisecond

def defaultConfig : Config :=
  { addrs := [], timeout := 5 * second, poolSize := 10, retryCount := 3, retryDelay := 100 * millisecond
    maxRetryDelay := 2 * second }

abbrev ClientOption := Config → Config

def withAddrs (addrs : List String) : ClientOption := fun c => { c with addrs := addrs }

def withTimeout (timeout : Int64) : ClientOption := fun c => { c with timeout := timeout }

def withPoolSize (size : Int64) : ClientOption := fun c => { c with poolSize := size }

def withRetryCount (count : Int64) : ClientOption := fun c => { c with retryCount := count }

def withRetryDelay (delay : Int64) : ClientOption := fun c => { c with retryDelay := delay }

/-- The option `ParseURI` makes for `maxRetryDelay`. -/
def withMaxRetryDelay (delay : Int64) : ClientOption := fun c => { c with maxRetryDelay := delay }

def errTimeout : String := "request timed out"

def errNoAddrs : String := "no addresses provided"

def errClosed : String := "client is closed"

structure SdkClient where
  config : Config
  /-- The addresses there is a stub for. -/
  stubs  : List String

def newClient (dial : String → Option String) (opts : List ClientOption) : Except String SdkClient :=
  let config := opts.foldl (fun c opt => opt c) defaultConfig
  if config.addrs.length = 0 then .error errNoAddrs
  else match config.addrs.findSome? dial with
    | some e => .error e
    | none => .ok { config := config, stubs := config.addrs }

/-- **Every configuration with an address is accepted**, whatever its numbers are. -/
theorem newClient_ok {dial : String → Option String} {opts : List ClientOption}
    (haddrs : (opts.foldl (fun c opt => opt c) defaultConfig).addrs ≠ [])
    (hdial : ∀ addr, dial addr = none) :
    ∃ c, newClient dial opts = .ok c ∧ c.config = opts.foldl (fun c opt => opt c) defaultConfig := by
  have hnone : ((opts.foldl (fun c opt => opt c) defaultConfig).addrs).findSome? dial = none :=
    List.findSome?_eq_none_iff.2 fun addr _ => hdial addr
  rw [newClient, if_neg (by simpa using haddrs), hnone]
  exact ⟨_, rfl, rfl⟩

/-! ## Connection strings -/

structure ParsedURL where
  host  : String
  /-- `Query().Get`: empty where the parameter is not given. -/
  query : String → String

/-- `unicode.IsSpace`. -/
def isSpace (c : Char) : Bool :=
  c.toNat ∈ [0x09, 0x0a, 0x0b, 0x0c, 0x0d, 0x20, 0x85, 0xa0, 0x1680, 0x2000, 0x2001, 0x2002, 0x2003, 0x2004, 0x2005,
    0x2006, 0x2007, 0x2008, 0x2009, 0x200a, 0x2028, 0x2029, 0x202f, 0x205f, 0x3000]

def trimSpace (s : List Char) : String :=
  String.ofList ((s.dropWhile isSpace).reverse.dropWhile isSpace).reverse

/-- `strconv.ParseUint` in base 10: the first digit that does not fit ends it, and so does the first character that is
no digit. -/
def parseUint (n : Nat) : List Char → Except String Nat
  | [] => .ok n
  | c :: rest =>
    if !c.isDigit then .error "invalid syntax"
    else if 2 ^ 64 ≤ n * 10 + (c.toNat - 0x30) then .error "value out of range"
    else parseUint (n * 10 + (c.toNat - 0x30)) rest

def atoi (s : String) : Except String Int64 :=
  let (negative, digits) : Bool × List Char := match s.toList with
    | '-' :: digits => (true, digits)
    | '+' :: digits => (false, digits)
    | digits => (false, digits)
  let quoted := s.quote
  if digits = [] then .error s!"strconv.Atoi: parsing {quoted}: invalid syntax"
  else match parseUint 0 digits with
    | .error e => .error s!"strconv.Atoi: parsing {quoted}: {e}"
    | .ok n =>
      if negative then
        if 2 ^ 63 < n then .error s!"strconv.Atoi: parsing {quoted}: value out of range" else .ok (-(Int64.ofNat n))
      else
        if 2 ^ 63 ≤ n then .error s!"strconv.Atoi: parsing {quoted}: value out of range" else .ok (Int64.ofNat n)

example : atoi "-1" = .ok (-1) := by decide

/-- An address must not be empty. -/
def checkAddrs (i : Nat) : List String → Except String (List String)
  | [] => .ok []
  | addr :: rest =>
    if addr = "" then .error s!"empty address at position {i}"
    else (checkAddrs (i + 1) rest).map (addr :: ·)

/-- One parameter of the query: it is passed over if it is empty. -/
def queryOption {α : Type} (u : ParsedURL) (name : String) (parse : String → Except String α) (set : α → ClientOption) :
    Except String (List ClientOption) :=
  let v := u.query name
  if v = "" then .ok []
  else match parse v with
    | .error e => .error s!"invalid {name}: {e}"
    | .ok x => .ok [set x]

def parseURI (parseURL : String → Except String ParsedURL) (parseDuration : String → Except String Int64)
    (uri : String) : Except String (List ClientOption) :=
  let uri :=
    if "rockskv://".toList.isPrefixOf uri.toList then "http://" ++ String.ofList (uri.toList.drop "rockskv://".length)
    else if "://".toList <:+: uri.toList then uri
    else "http://" ++ uri
  match parseURL uri with
  | .error e => .error s!"invalid URI: {e}"
  | .ok u =>
    if u.host = "" then .error "no hosts specified in URI"
    else do
      let addrs ← checkAddrs 0 ((u.host.toList.splitOn ',').map trimSpace)
      let timeout ← queryOption u "timeout" parseDuration withTimeout
      let retryCount ← queryOption u "retryCount" atoi withRetryCount
      let retryDelay ← queryOption u "retryDelay" parseDuration withRetryDelay
      let maxRetryDelay ← queryOption u "maxRetryDelay" parseDuration withMaxRetryDelay
      let poolSize ← queryOption u "poolSize" atoi withPoolSize
      return [withAddrs addrs] ++ timeout ++ retryCount ++ retryDelay ++ maxRetryDelay ++ poolSize

end RocksKV.Client
