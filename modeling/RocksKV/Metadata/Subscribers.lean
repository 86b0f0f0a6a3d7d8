import RocksKV.Lib.Feed
import RocksKV.Lib.Run
import RocksKV.Metadata.RouteTable
/-!
# From a commit to the subscribers (`pkg/metadata/router.go`, `etcd.go`, `server.go`)

| here | there |
| --- | --- |
| `load`, `watch`     | `Router.Start` (`router.go:46-68`); etcd knows the watch only when the goroutine of `WatchRouteTable` calls `client.Watch` (`etcd.go:412-415`), without a revision |
| `commit`            | `UpdateRouteTable` by any process (`etcd.go:332-370`) |
| `allocate`, `direct` | `allocatePartitions`: its commit, and the cached table it sets itself (`router.go:251-257`) |
| `forward`           | `WatchRouteTable`: an event goes into the watch channel, or is dropped (`etcd.go:416-431`) |
| `receive`, `update`, `notify` | the loop of `Router.Start` (`router.go:60-65`), `notifySubscribers` (`:132-143`) |
| `Stream`            | a `SubscribeRouteUpdates` call with its channel (`server.go:290-336`) |
| `opened`, `subscribe` | its first send (`server.go:301-307`), `Subscribe` (`router.go:100-118`) |
| `take`, `closed`, `cancel`, `unsubscribe` | its loop (`server.go:315-335`), and `Unsubscribe` (`router.go:121-129`) on its way out |

Both channels hold ten tables, and a table that finds one full is dropped. `notifySubscribers` holds `subMu`, so it is one
step: what a stream takes from its own channel meanwhile comes before or after.

The map of subscribers has one channel for a node id. A second stream of the same id takes the place of the first, which
gets no more tables and does not end; and the first that leaves closes the channel of the other.
-/

namespace RocksKV.Metadata

open Lib

/-- The capacity of both channels. -/
def channelCap : Nat := 10

inductive StreamPhase
  /-- The first table has been sent. -/
  | opened
  | subscribed
  /-- It has left its loop, `Unsubscribe` comes next. -/
  | ended
  | gone
  deriving DecidableEq, Repr

structure Stream where
  nodeID : String
  phase  : StreamPhase
  /-- Its channel. -/
  ch     : List RouteTable
  closed : Bool
  /-- The last table its client has received. -/
  last   : Option RouteTable

/-- Tables still reach it. -/
def Stream.Live (st : Stream) : Prop := st.phase = .subscribed ∧ st.closed = false

instance (st : Stream) : Decidable st.Live := inferInstanceAs (Decidable (_ ∧ _))

inductive RouterPhase
  | stopped | loaded | watching
  deriving DecidableEq, Repr

structure RouteFeed where
  /-- The table in etcd. -/
  committed   : RouteTable
  /-- `r.routeTable`. -/
  cache       : RouteTable
  phase       : RouterPhase
  /-- Tables that `allocatePartitions` has committed and not yet cached. -/
  allocated   : List RouteTable
  /-- Events that etcd has for the watch. -/
  events      : List RouteTable
  watchCh     : List RouteTable
  /-- The table the loop of `Router.Start` works on, and whether it is cached. -/
  hand        : Option (RouteTable × Bool)
  /-- `r.subscribers`: the stream whose channel it is. -/
  subscribers : OrdMap String Nat
  streams     : List Stream

namespace RouteFeed

/-- Before `Start`, on whatever table is in etcd. -/
def new (committed : RouteTable) : RouteFeed :=
  { committed, cache := .new, phase := .stopped, allocated := [], events := [], watchCh := [], hand := none
    subscribers := OrdMap.empty, streams := [] }

def commit (s : RouteFeed) (table : RouteTable) : RouteFeed :=
  let new := updateRouteTable s.committed table
  { s with committed := new, events := if s.phase = .watching then s.events ++ [new] else s.events }

/-- The channel of every stream in the map is offered the table. -/
def notifySubscribers (s : RouteFeed) (table : RouteTable) : RouteFeed :=
  { s with streams := s.streams.mapIdx fun i st =>
      if s.subscribers.get st.nodeID = some i then { st with ch := offer channelCap st.ch table } else st }

/-- The channel in the map becomes that of stream `i`, with the current table in it. -/
def subscribe (s : RouteFeed) (i : Nat) (st : Stream) : RouteFeed :=
  { s with
    subscribers := s.subscribers.insert st.nodeID i
    streams := s.streams.set i { st with phase := .subscribed, ch := [s.cache], closed := false } }

/-- Whatever channel the map has for the node is closed. -/
def unsubscribe (s : RouteFeed) (nodeID : String) : RouteFeed :=
  match s.subscribers.get nodeID with
  | some j =>
    { s with
      subscribers := s.subscribers.erase nodeID
      streams := s.streams.modify j fun st => { st with closed := true } }
  | none => s

end RouteFeed

inductive FeedAct
  | load
  | watch
  | commit (table : RouteTable)
  | allocate (table : RouteTable)
  | direct (i : Nat)
  | forward
  | receive
  | update
  | notify
  /-- A first send that fails is only logged. -/
  | opened (nodeID : String) (sent : Bool)
  | subscribe (i : Nat)
  /-- A table is taken from the channel; a failed send ends the stream. -/
  | take (i : Nat) (sent : Bool)
  | closed (i : Nat)
  | cancel (i : Nat)
  | unsubscribe (i : Nat)

def feedStep (s : RouteFeed) : FeedAct → Option RouteFeed
  | .load => if s.phase = .stopped then some { s with cache := s.committed, phase := .loaded } else none
  | .watch => if s.phase = .loaded then some { s with phase := .watching } else none
  | .commit table => some (s.commit table)
  | .allocate table =>
    some { s.commit table with allocated := s.allocated ++ [updateRouteTable s.committed table] }
  | .direct i =>
    match s.allocated[i]? with
    | some table => some { s with cache := table, allocated := s.allocated.eraseIdx i }
    | none => none
  | .forward =>
    match s.events with
    | table :: events => some { s with events := events, watchCh := offer channelCap s.watchCh table }
    | [] => none
  | .receive =>
    match s.hand, s.watchCh with
    | none, table :: watchCh => some { s with hand := some (table, false), watchCh := watchCh }
    | _, _ => none
  | .update =>
    match s.hand with
    | some (table, false) => some { s with cache := table, hand := some (table, true) }
    | _ => none
  | .notify =>
    match s.hand with
    | some (table, true) => some { s.notifySubscribers table with hand := none }
    | _ => none
  | .opened nodeID sent =>
    some { s with streams := s.streams ++ [⟨nodeID, .opened, [], false, if sent then some s.cache else none⟩] }
  | .subscribe i =>
    match s.streams[i]? with
    | some st => if st.phase = .opened then some (s.subscribe i st) else none
    | none => none
  | .take i sent =>
    match s.streams[i]? with
    | some ⟨nodeID, .subscribed, table :: ch, closed, last⟩ =>
      let st := if sent then ⟨nodeID, .subscribed, ch, closed, some table⟩ else ⟨nodeID, .ended, ch, closed, last⟩
      some { s with streams := s.streams.set i st }
    | _ => none
  | .closed i =>
    match s.streams[i]? with
    | some ⟨nodeID, .subscribed, [], true, last⟩ =>
      some { s with streams := s.streams.set i ⟨nodeID, .ended, [], true, last⟩ }
    | _ => none
  | .cancel i =>
    match s.streams[i]? with
    | some ⟨nodeID, .subscribed, ch, closed, last⟩ =>
      some { s with streams := s.streams.set i ⟨nodeID, .ended, ch, closed, last⟩ }
    | _ => none
  | .unsubscribe i =>
    match s.streams[i]? with
    | some st =>
      if st.phase = .ended then
        some ({ s with streams := s.streams.set i { st with phase := .gone } }.unsubscribe st.nodeID)
      else none
    | none => none

/-! ## Where a table still has to go -/

namespace RouteFeed

/-- The tables the subscribers have still to be notified of. -/
def pipe (s : RouteFeed) : List RouteTable := s.hand.toList.map Prod.fst ++ (s.watchCh ++ s.events)

/-- The tables that are still to be cached. -/
def toCache (s : RouteFeed) : List RouteTable :=
  (s.hand.toList.filter fun x => !x.2).map Prod.fst ++ (s.watchCh ++ s.events)

/-- Nothing is waiting in a channel, at etcd or in a goroutine's hand. -/
structure Quiescent (s : RouteFeed) : Prop where
  watching  : s.phase = .watching
  allocated : s.allocated = []
  events    : s.events = []
  watchCh   : s.watchCh = []
  hand      : s.hand = none
  streams   : ∀ st ∈ s.streams, st.phase = .subscribed → st.ch = [] ∧ st.closed = false

instance (s : RouteFeed) : Decidable s.Quiescent :=
  decidable_of_iff
    (s.phase = .watching ∧ s.allocated = [] ∧ s.events = [] ∧ s.watchCh = [] ∧ s.hand = none ∧
      ∀ st ∈ s.streams, st.phase = .subscribed → st.ch = [] ∧ st.closed = false)
    ⟨fun ⟨h1, h2, h3, h4, h5, h6⟩ => ⟨h1, h2, h3, h4, h5, h6⟩, fun ⟨h1, h2, h3, h4, h5, h6⟩ => ⟨h1, h2, h3, h4, h5, h6⟩⟩

/-- **Everyone has the last table.** -/
structure UpToDate (s : RouteFeed) : Prop where
  cache   : s.cache = s.committed
  streams : ∀ st ∈ s.streams, st.phase = .subscribed → st.last = some s.committed

end RouteFeed

/-- What a run must not do: commit between the load and the watch, set the cache back, drop the last table there is,
subscribe before the load or in place of a live stream. -/
def Reliable (s : RouteFeed) : FeedAct → Prop
  | .commit _ | .allocate _ => s.phase ≠ .loaded
  | .direct i => s.phase = .stopped ∨ s.toCache ≠ [] ∨ s.allocated[i]? = some s.committed
  | .forward => s.watchCh.length < channelCap ∨ s.events.tail ≠ []
  | .notify => (∀ st ∈ s.streams, st.Live → st.ch.length < channelCap) ∨ s.watchCh ++ s.events ≠ []
  | .subscribe i =>
    s.phase ≠ .stopped ∧
      ∀ st ∈ s.streams[i]?, ∀ other ∈ s.streams, other.nodeID = st.nodeID → ¬ other.Live
  | _ => True

instance (s : RouteFeed) : ∀ a : FeedAct, Decidable (Reliable s a)
  | .commit _ | .allocate _ => inferInstanceAs (Decidable (s.phase ≠ .loaded))
  | .direct i =>
    inferInstanceAs (Decidable (s.phase = .stopped ∨ s.toCache ≠ [] ∨ s.allocated[i]? = some s.committed))
  | .forward => inferInstanceAs (Decidable (s.watchCh.length < channelCap ∨ s.events.tail ≠ []))
  | .notify =>
    inferInstanceAs (Decidable ((∀ st ∈ s.streams, st.Live → st.ch.length < channelCap) ∨ s.watchCh ++ s.events ≠ []))
  | .subscribe i =>
    inferInstanceAs (Decidable (s.phase ≠ .stopped ∧
      ∀ st ∈ s.streams[i]?, ∀ other ∈ s.streams, other.nodeID = st.nodeID → ¬ other.Live))
  | .load | .watch | .receive | .update | .opened _ _ | .take _ _ | .closed _ | .cancel _ | .unsubscribe _ =>
    inferInstanceAs (Decidable True)

structure FeedInv (s : RouteFeed) : Prop where
  /-- Before the watch nothing is under way. -/
  idle   : s.phase ≠ .watching → s.pipe = []
  early  : s.phase = .stopped → ∀ st ∈ s.streams, ¬ st.Live
  piped  : latest s.pipe (some s.committed) = some s.committed
  cached : s.phase ≠ .stopped → latest s.toCache (some s.cache) = some s.committed
  fed    : ∀ st ∈ s.streams, st.Live → latest (st.ch ++ s.pipe) st.last = some s.committed
  mapped : ∀ i st, s.streams[i]? = some st → st.Live → s.subscribers.get st.nodeID = some i

section
variable {s : RouteFeed}

theorem feedInv_new (committed : RouteTable) : FeedInv (RouteFeed.new committed) where
  idle _   := rfl
  early _  := by simp [RouteFeed.new]
  piped    := rfl
  cached h := absurd rfl h
  fed      := by simp [RouteFeed.new]
  mapped   := by simp [RouteFeed.new]

/-- **What the invariant is for.** -/
theorem FeedInv.upToDate (h : FeedInv s) (hq : s.Quiescent) : s.UpToDate := by
  have hpipe : s.pipe = [] := by simp [RouteFeed.pipe, hq.hand, hq.watchCh, hq.events]
  have htoCache : s.toCache = [] := by simp [RouteFeed.toCache, hq.hand, hq.watchCh, hq.events]
  refine ⟨?_, fun st hst hsub => ?_⟩
  · have hcached := h.cached (by rw [hq.watching]; decide)
    rw [htoCache, latest_nil] at hcached
    exact Option.some.inj hcached
  · obtain ⟨hch, hopen⟩ := hq.streams st hst hsub
    have hfed := h.fed st hst ⟨hsub, hopen⟩
    rwa [hch, hpipe, List.append_nil, latest_nil] at hfed

theorem RouteFeed.toCache_of_pipe (s : RouteFeed) (h : s.pipe = []) : s.toCache = [] := by
  simp only [RouteFeed.pipe, List.append_eq_nil_iff, List.map_eq_nil_iff] at h
  simp [RouteFeed.toCache, h]

/-- A new subscriber gets the cached table first. -/
theorem FeedInv.fed_new (h : FeedInv s) (hphase : s.phase ≠ .stopped) :
    latest s.pipe (some s.cache) = some s.committed := by
  by_cases hpipe : s.pipe = []
  · have htoCache : s.toCache = [] := s.toCache_of_pipe hpipe
    have hcached := h.cached hphase
    rw [htoCache] at hcached
    rwa [hpipe]
  · rw [latest_of_ne_nil hpipe _ (some s.committed)]
    exact h.piped

/-! ## One stream -/

/-- A stream may be replaced by one that no longer lives, or that is fed as well. -/
theorem FeedInv.setStream (h : FeedInv s) {i : Nat} {st st' : Stream} (hi : s.streams[i]? = some st)
    (hlive : st'.Live → st.Live ∧ st'.nodeID = st.nodeID ∧ latest (st'.ch ++ s.pipe) st'.last = some s.committed) :
    FeedInv { s with streams := s.streams.set i st' } := by
  have hst := List.mem_of_getElem? hi
  refine ⟨h.idle, fun hstop other hmem hother => ?_, h.piped, h.cached, fun other hmem hother => ?_,
    fun j other hj hother => ?_⟩
  · rcases List.mem_or_eq_of_mem_set hmem with hold | rfl
    · exact h.early hstop other hold hother
    · exact h.early hstop st hst (hlive hother).1
  · rcases List.mem_or_eq_of_mem_set hmem with hold | rfl
    · exact h.fed other hold hother
    · exact (hlive hother).2.2
  · simp only [List.getElem?_set] at hj
    split_ifs at hj with hij hlt
    · subst hij
      cases hj
      obtain ⟨hold, hname, -⟩ := hlive hother
      rw [hname]
      exact h.mapped _ st hi hold
    · exact h.mapped j other hj hother

/-- A stream that has left its loop. -/
theorem not_live_of_phase {st : Stream} (h : st.phase ≠ .subscribed) : ¬ st.Live := fun hlive => h hlive.1

theorem FeedInv.opened (h : FeedInv s) {st : Stream} (hst : ¬ st.Live) :
    FeedInv { s with streams := s.streams ++ [st] } := by
  have hold : ∀ other ∈ s.streams ++ [st], other.Live → other ∈ s.streams := by
    intro other hmem hother
    rcases List.mem_append.1 hmem with hmem | hmem
    · exact hmem
    · rw [List.mem_singleton.1 hmem] at hother
      exact absurd hother hst
  refine ⟨h.idle, fun hstop other hmem hother => ?_, h.piped, h.cached, fun other hmem hother => ?_,
    fun j other hj hother => ?_⟩
  · exact h.early hstop other (hold other hmem hother) hother
  · exact h.fed other (hold other hmem hother) hother
  · simp only [List.getElem?_append] at hj
    split_ifs at hj
    · exact h.mapped j other hj hother
    · have heq := List.mem_singleton.1 (List.mem_of_getElem? hj)
      rw [heq] at hother
      exact absurd hother hst

theorem FeedInv.subscribe (h : FeedInv s) (i : Nat) {st : Stream}
    (hphase : s.phase ≠ .stopped) (hfree : ∀ other ∈ s.streams, other.nodeID = st.nodeID → ¬ other.Live) :
    FeedInv (s.subscribe i st) := by
  refine ⟨h.idle, fun hstop => absurd hstop hphase, h.piped, h.cached, fun other hmem hother => ?_,
    fun j other hj hother => ?_⟩
  · rcases List.mem_or_eq_of_mem_set hmem with hold | rfl
    · exact h.fed other hold hother
    · exact h.fed_new hphase
  · simp only [RouteFeed.subscribe, List.getElem?_set] at hj
    show (s.subscribers.insert st.nodeID i).get other.nodeID = some j
    split_ifs at hj with hij hlt
    · subst hij
      cases hj
      exact OrdMap.get_insert_self _ _ _
    · have hname : other.nodeID ≠ st.nodeID := fun heq => hfree other (List.mem_of_getElem? hj) heq hother
      rw [OrdMap.get_insert_ne _ _ hname]
      exact h.mapped j other hj hother

/-- The stream whose channel is closed lives no longer, and no other was in the map under that id. -/
theorem FeedInv.unsubscribe (h : FeedInv s) (nodeID : String) : FeedInv (s.unsubscribe nodeID) := by
  unfold RouteFeed.unsubscribe
  split
  · next j hj =>
    have hold : ∀ (k : Nat) (other : Stream),
        (s.streams.modify j fun st => { st with closed := true })[k]? = some other → other.Live →
        s.streams[k]? = some other ∧ k ≠ j := by
      intro k other hk hother
      rw [List.getElem?_modify] at hk
      obtain ⟨st, hst, rfl⟩ := Option.map_eq_some_iff.1 hk
      by_cases hjk : j = k
      · simp only [if_pos hjk] at hother
        exact absurd hother.2 (by simp)
      · simp only [if_neg hjk]
        exact ⟨hst, Ne.symm hjk⟩
    refine ⟨h.idle, fun hstop other hmem hother => ?_, h.piped, h.cached, fun other hmem hother => ?_,
      fun k other hk hother => ?_⟩
    · obtain ⟨k, hk⟩ := List.mem_iff_getElem?.1 hmem
      exact h.early hstop other (List.mem_of_getElem? (hold k other hk hother).1) hother
    · obtain ⟨k, hk⟩ := List.mem_iff_getElem?.1 hmem
      exact h.fed other (List.mem_of_getElem? (hold k other hk hother).1) hother
    · obtain ⟨hk', hne⟩ := hold k other hk hother
      have hmap := h.mapped k other hk' hother
      have hname : other.nodeID ≠ nodeID := by
        intro heq
        rw [heq, hj] at hmap
        exact hne (Option.some.inj hmap).symm
      show (s.subscribers.erase nodeID).get other.nodeID = some k
      rw [OrdMap.get_erase, if_neg hname]
      exact hmap
  · exact h

/-! ## The way of a table -/

/-- Nothing changes in the end for those who wait for the tables under way. -/
theorem FeedInv.rearrange (h : FeedInv s) {s' : RouteFeed} (hcommitted : s'.committed = s.committed)
    (hphase : s'.phase = s.phase) (hstreams : s'.streams = s.streams) (hsubs : s'.subscribers = s.subscribers)
    (hidle : s.pipe = [] → s'.pipe = []) (hpipe : ∀ pre seen, latest (pre ++ s'.pipe) seen = latest (pre ++ s.pipe) seen)
    (hcache : latest s'.toCache (some s'.cache) = latest s.toCache (some s.cache)) : FeedInv s' := by
  refine ⟨fun hp => hidle (h.idle (hphase ▸ hp)), ?_, ?_, ?_, ?_, ?_⟩
  · rw [hphase, hstreams]
    exact h.early
  · rw [hcommitted]
    exact (hpipe [] _).trans h.piped
  · rw [hphase, hcommitted, hcache]
    exact h.cached
  · rw [hstreams, hcommitted]
    intro st hst hlive
    exact (hpipe st.ch _).trans (h.fed st hst hlive)
  · rw [hstreams, hsubs]
    exact h.mapped

/-- A table changes hands on its way. -/
theorem FeedInv.handOver (h : FeedInv s) {s' : RouteFeed} (hcommitted : s'.committed = s.committed)
    (hphase : s'.phase = s.phase) (hstreams : s'.streams = s.streams) (hsubs : s'.subscribers = s.subscribers)
    (hpipe : s'.pipe = s.pipe) (hcache : latest s'.toCache (some s'.cache) = latest s.toCache (some s.cache)) :
    FeedInv s' :=
  h.rearrange hcommitted hphase hstreams hsubs hpipe.trans (fun _ _ => by rw [hpipe]) hcache

/-- A table that is cached directly is replaced by one under way, or it is the last one. -/
theorem FeedInv.direct (h : FeedInv s) {table : RouteTable} (allocated : List RouteTable)
    (hlate : s.phase = .stopped ∨ s.toCache ≠ [] ∨ table = s.committed) :
    FeedInv { s with cache := table, allocated := allocated } := by
  refine ⟨h.idle, h.early, h.piped, fun hp => ?_, h.fed, h.mapped⟩
  by_cases hrest : s.toCache = []
  · obtain rfl : table = s.committed := (hlate.resolve_left hp).resolve_left (not_not.2 hrest)
    show latest s.toCache _ = _
    rw [hrest]
    rfl
  · exact (latest_of_ne_nil hrest _ _).trans (h.cached hp)

theorem FeedInv.forward (h : FeedInv s) {table : RouteTable} {events : List RouteTable} (hev : s.events = table :: events)
    (hroom : s.watchCh.length < channelCap ∨ events ≠ []) :
    FeedInv { s with events := events, watchCh := offer channelCap s.watchCh table } := by
  have hsame : ∀ pre seen, latest (pre ++ (offer channelCap s.watchCh table ++ events)) seen =
      latest (pre ++ (s.watchCh ++ s.events)) seen := by
    intro pre seen
    rw [hev, latest_append pre, latest_append pre]
    exact latest_offer hroom _ _
  refine h.rearrange rfl rfl rfl rfl (fun hnil => ?_) (fun pre seen => ?_) (hsame _ _)
  · simp [RouteFeed.pipe, hev] at hnil
  · simp only [RouteFeed.pipe, ← List.append_assoc pre]
    exact hsame _ _

theorem FeedInv.commit (h : FeedInv s) (hphase : s.phase ≠ .loaded) (table : RouteTable) : FeedInv (s.commit table) := by
  by_cases hwatch : s.phase = .watching
  · -- the table is the last one of every feed
    have hlast : ∀ pre seen, latest (pre ++ (s.commit table).pipe) seen = some (s.commit table).committed := by
      intro pre seen
      simp only [RouteFeed.pipe, RouteFeed.commit, if_pos hwatch, ← List.append_assoc]
      rw [latest_append]
      rfl
    refine ⟨fun hp => absurd hwatch hp, fun hstop => ?_, hlast [] _, fun _ => ?_, fun st _ _ => hlast _ _, h.mapped⟩
    · exact absurd (hwatch.symm.trans hstop) (by decide)
    · simp only [RouteFeed.toCache, RouteFeed.commit, if_pos hwatch, ← List.append_assoc]
      rw [latest_append]
      rfl
  · have hstop : s.phase = .stopped := by
      cases hp : s.phase with
      | stopped => rfl
      | loaded => exact absurd hp hphase
      | watching => exact absurd hp hwatch
    have hpipe : (s.commit table).pipe = [] := by
      have hnil := h.idle hwatch
      simpa only [RouteFeed.pipe, RouteFeed.commit, if_neg hwatch] using hnil
    refine ⟨fun _ => hpipe, h.early, by rw [hpipe]; rfl, fun hp => absurd hstop hp, fun st hst hlive => ?_, h.mapped⟩
    exact absurd hlive (h.early hstop st hst)

theorem FeedInv.notify (h : FeedInv s) {table : RouteTable} (hhand : s.hand = some (table, true))
    (hroom : (∀ st ∈ s.streams, st.Live → st.ch.length < channelCap) ∨ s.watchCh ++ s.events ≠ []) :
    FeedInv { s.notifySubscribers table with hand := none } := by
  have hpipe : s.pipe = table :: (s.watchCh ++ s.events) := by simp [RouteFeed.pipe, hhand]
  have htoCache : s.toCache = s.watchCh ++ s.events := by simp [RouteFeed.toCache, hhand]
  have hwatch : s.phase = .watching := by
    by_contra hno
    rw [h.idle hno] at hpipe
    cases hpipe
  -- a live stream is in the map, so the table is offered to its channel
  have hold : ∀ (k : Nat) (other : Stream), (s.notifySubscribers table).streams[k]? = some other → other.Live →
      ∃ st, s.streams[k]? = some st ∧ st.Live ∧ s.subscribers.get st.nodeID = some k ∧
        other = { st with ch := offer channelCap st.ch table } := by
    intro k other hk hother
    simp only [RouteFeed.notifySubscribers, List.getElem?_mapIdx] at hk
    obtain ⟨st, hst, rfl⟩ := Option.map_eq_some_iff.1 hk
    by_cases hin : s.subscribers.get st.nodeID = some k
    · rw [if_pos hin] at hother ⊢
      exact ⟨st, hst, hother, hin, rfl⟩
    · rw [if_neg hin] at hother
      exact absurd (h.mapped k st hst hother) hin
  refine ⟨fun hp => absurd hwatch hp, fun hstop => absurd (hwatch.symm.trans hstop) (by decide), ?_, fun hp => ?_,
    fun other hmem hother => ?_, fun k other hk hother => ?_⟩
  · have hpiped := h.piped
    rw [hpipe, latest_cons] at hpiped
    by_cases hrest : s.watchCh ++ s.events = []
    · show latest (s.watchCh ++ s.events) _ = _
      rw [hrest]
      rfl
    · exact (latest_of_ne_nil hrest _ _).trans hpiped
  · have hcached := h.cached hp
    rwa [htoCache] at hcached
  · obtain ⟨k, hk⟩ := List.mem_iff_getElem?.1 hmem
    obtain ⟨st, hst, hlive, -, rfl⟩ := hold k other hk hother
    have hin := List.mem_of_getElem? hst
    have hfed := h.fed st hin hlive
    rw [hpipe] at hfed
    exact (latest_offer (hroom.imp_left fun hall => hall st hin hlive) table st.last).trans hfed
  · obtain ⟨st, -, -, hget, rfl⟩ := hold k other hk hother
    exact hget

/-! ## Runs -/

theorem feedInv_step (s : RouteFeed) (a : FeedAct) (s' : RouteFeed) (h : FeedInv s) (hc : Reliable s a)
    (hstep : feedStep s a = some s') : FeedInv s' := by
  cases a with
  | load =>
    simp only [feedStep] at hstep
    split_ifs at hstep with hstop
    cases hstep
    have hpipe : s.pipe = [] := h.idle (by rw [hstop]; decide)
    have hcached : latest s.toCache (some s.committed) = some s.committed := by
      rw [s.toCache_of_pipe hpipe]
      rfl
    exact ⟨fun _ => hpipe, fun hp => RouterPhase.noConfusion hp, h.piped, fun _ => hcached, h.fed, h.mapped⟩
  | watch =>
    simp only [feedStep] at hstep
    split_ifs at hstep with hload
    cases hstep
    have hcached := h.cached (by rw [hload]; decide)
    exact ⟨fun hp => absurd rfl hp, fun hp => RouterPhase.noConfusion hp, h.piped, fun _ => hcached, h.fed, h.mapped⟩
  | commit table =>
    cases hstep
    exact h.commit hc table
  | allocate table =>
    cases hstep
    obtain ⟨h1, h2, h3, h4, h5, h6⟩ := h.commit hc table
    exact ⟨h1, h2, h3, h4, h5, h6⟩
  | direct i =>
    simp only [feedStep] at hstep
    split at hstep
    · next table htable =>
      cases hstep
      refine h.direct _ (hc.imp_right (Or.imp_right fun hlast => ?_))
      rw [htable] at hlast
      exact Option.some.inj hlast
    · cases hstep
  | forward =>
    simp only [feedStep] at hstep
    split at hstep
    · next table events hev =>
      cases hstep
      simp only [Reliable, hev, List.tail_cons] at hc
      exact h.forward hev hc
    · cases hstep
  | receive =>
    simp only [feedStep] at hstep
    split at hstep
    · next table watchCh hhand hch =>
      cases hstep
      refine h.handOver rfl rfl rfl rfl ?_ ?_
      · simp [RouteFeed.pipe, hhand, hch]
      · simp [RouteFeed.toCache, hhand, hch]
    · cases hstep
  | update =>
    simp only [feedStep] at hstep
    split at hstep
    · next table hhand =>
      cases hstep
      refine h.handOver rfl rfl rfl rfl ?_ ?_
      · simp [RouteFeed.pipe, hhand]
      · simp [RouteFeed.toCache, hhand, latest_cons]
    · cases hstep
  | notify =>
    simp only [feedStep] at hstep
    split at hstep
    · next table hhand =>
      cases hstep
      exact h.notify hhand hc
    · cases hstep
  | opened nodeID sent =>
    cases hstep
    exact h.opened (not_live_of_phase (by simp))
  | subscribe i =>
    simp only [feedStep] at hstep
    split at hstep
    · next st hi =>
      split_ifs at hstep
      cases hstep
      exact h.subscribe i hc.1 (hc.2 st hi)
    · cases hstep
  | take i sent =>
    simp only [feedStep] at hstep
    split at hstep
    · next nodeID table ch closed last hi =>
      cases hstep
      refine h.setStream hi fun hlive => ?_
      cases sent with
      | false => exact absurd hlive (not_live_of_phase (by simp))
      | true =>
        have hold : (⟨nodeID, .subscribed, table :: ch, closed, last⟩ : Stream).Live := ⟨rfl, hlive.2⟩
        have hfed := h.fed _ (List.mem_of_getElem? hi) hold
        exact ⟨hold, rfl, hfed⟩
    · cases hstep
  | closed i =>
    simp only [feedStep] at hstep
    split at hstep
    · next nodeID last hi =>
      cases hstep
      exact h.setStream hi fun hlive => absurd hlive (not_live_of_phase (by simp))
    · cases hstep
  | cancel i =>
    simp only [feedStep] at hstep
    split at hstep
    · next nodeID ch closed last hi =>
      cases hstep
      exact h.setStream hi fun hlive => absurd hlive (not_live_of_phase (by simp))
    · cases hstep
  | unsubscribe i =>
    simp only [feedStep] at hstep
    split at hstep
    · next st hi =>
      split_ifs at hstep
      cases hstep
      have hgone : FeedInv { s with streams := s.streams.set i { st with phase := .gone } } :=
        h.setStream hi fun hlive => absurd hlive (not_live_of_phase (by simp))
      exact hgone.unsubscribe st.nodeID
    · cases hstep

end

/-- **Route changes reach everyone** in every run in which no table is committed between the load and the watch, none is
cached after a later one, none is dropped that is the last, and nobody subscribes in place of a live stream. -/
theorem route_changes_reach_everyone {committed : RouteTable} {as : List FeedAct} {s : RouteFeed}
    (hrun : run feedStep (RouteFeed.new committed) as = some s) (hc : Along feedStep Reliable (RouteFeed.new committed) as)
    (hq : s.Quiescent) : s.UpToDate :=
  (run_inv_along feedInv_step (feedInv_new committed) hc hrun).upToDate hq

/-- A commit, all the way to the subscribers' channels. -/
def commitAndNotify : List FeedAct := [.commit .new, .forward, .receive, .update, .notify]

/-- A node subscribes, leaves and comes back, with a commit in between and one after. -/
def returningNode : List FeedAct :=
  ([.load, .watch, .opened "n1" true, .subscribe 0, .take 0 true, .cancel 0, .unsubscribe 0] : List FeedAct) ++
    commitAndNotify ++ ([.opened "n1" false, .subscribe 1] : List FeedAct) ++ commitAndNotify ++
    ([.take 1 true, .take 1 true] : List FeedAct)

theorem route_changes_reach_everyone_returning :
    ∃ s : RouteFeed,
      run feedStep (RouteFeed.new .new) returningNode = some s ∧ s.committed.version = 3 ∧ s.Quiescent ∧ s.UpToDate := by
  have hrun : ∃ s : RouteFeed, run feedStep (RouteFeed.new .new) returningNode = some s ∧
      s.committed.version = 3 ∧ s.Quiescent := exists_run (by decide +kernel)
  obtain ⟨s, hs, hversion, hq⟩ := hrun
  exact ⟨s, hs, hversion, hq, route_changes_reach_everyone hs (by decide +kernel) hq⟩

/-- **Bug**: a commit between the load and the watch, the eleventh of eleven commits that finds the watch channel full,
an allocation that caches its table after a later one has arrived, and a second stream of a node that takes the place of
the first: each leaves somebody with an older table although nothing is waiting. -/
theorem route_change_is_lost :
    (∃ s : RouteFeed, run feedStep (RouteFeed.new .new) [.load, .commit .new, .watch] = some s ∧
      s.Quiescent ∧ s.cache.version = 1 ∧ s.committed.version = 2) ∧
    (∃ s : RouteFeed,
      run feedStep (RouteFeed.new .new) (([.load, .watch] : List FeedAct) ++
        (List.replicate 11 (.commit .new) : List FeedAct) ++ (List.replicate 11 .forward : List FeedAct) ++
        (List.replicate 10 ([.receive, .update, .notify] : List FeedAct)).flatten) = some s ∧
      s.Quiescent ∧ s.cache.version = 11 ∧ s.committed.version = 12) ∧
    (∃ s : RouteFeed,
      run feedStep (RouteFeed.new .new)
        (([.load, .watch, .allocate .new, .forward, .receive, .update, .notify] : List FeedAct) ++ commitAndNotify ++
          ([.direct 0] : List FeedAct)) = some s ∧
      s.Quiescent ∧ s.cache.version = 2 ∧ s.committed.version = 3) ∧
    ∃ s : RouteFeed,
      run feedStep (RouteFeed.new .new)
        (([.load, .watch, .opened "n1" true, .subscribe 0, .take 0 true, .opened "n1" true, .subscribe 1, .take 1 true] :
          List FeedAct) ++ commitAndNotify ++ ([.take 1 true] : List FeedAct)) = some s ∧
      s.Quiescent ∧ s.cache = s.committed ∧ s.committed.version = 2 ∧
      s.streams.map (fun st => (st.phase, st.last.map RouteTable.version)) =
        [(.subscribed, some 1), (.subscribed, some 2)] :=
  ⟨exists_run (by decide +kernel), exists_run (by decide +kernel), exists_run (by decide +kernel),
    exists_run (by decide +kernel)⟩

end RocksKV.Metadata
