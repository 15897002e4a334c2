import Mathlib.Algebra.Ring.Int.Defs
import Mathlib.Tactic.Common
import WirelessMesh.Lib.SlotTable

/-!
# The route cache of dynamic source routing

`dsr_route.c` keeps twenty routes. Every function that goes over them takes out the ones that
have timed out, and `rt_cache_size` counts the rest.
-/

namespace WirelessMesh.Dsr

abbrev Addr := BitVec 32

def maxRouteLen : ℕ := 15

/-- `ROUTE_CACHE_TIMEOUT`, in seconds. -/
def routeCacheTimeout : ℕ := 300

def routeCacheSize : ℕ := 20

/-- `struct rt_entry`: a route over the first `segsLeft` words of `addr`. An entry whose
destination is zero is free. -/
structure RtEntry where
  time : ℕ
  segsLeft : ℕ
  addr : List Addr
  dst : Addr
  deriving DecidableEq, Repr

namespace RtEntry

def used (e : RtEntry) : Bool :=
  e.dst != 0

def fresh (now : ℕ) (e : RtEntry) : Bool :=
  now - e.time < routeCacheTimeout

def live (now : ℕ) (e : RtEntry) : Bool :=
  e.used && e.fresh now

def clean (e : RtEntry) : RtEntry :=
  { e with dst := 0 }

/-- The entry after the pass of a loop that takes out what is in use and meets `p`. -/
def clearIf (p : RtEntry → Bool) (e : RtEntry) : RtEntry :=
  if e.used && p e then e.clean else e

def path (e : RtEntry) : List Addr :=
  e.addr.take e.segsLeft

/-- What is stored when the slot is filled: the words beyond the route stay as they were. -/
def fill (now : ℕ) (daddr : Addr) (path : List Addr) (e : RtEntry) : RtEntry where
  time := now
  segsLeft := path.length
  addr := path ++ e.addr.drop path.length
  dst := daddr

end RtEntry

/-- `rt_cache` and `rt_cache_size`. -/
structure RtCache where
  entries : List RtEntry
  size : ℤ
  deriving DecidableEq, Repr

def RtCache.init : RtCache where
  entries := List.replicate routeCacheSize
    { time := 0, segsLeft := 0, addr := List.replicate maxRouteLen 0, dst := 0 }
  size := 0

/-! ### The functions -/

/-- The comparison of `have_route`. -/
def sameRoute (daddr : Addr) (path : List Addr) (e : RtEntry) : Bool :=
  e.dst == daddr && e.segsLeft == path.length && e.addr.take path.length == path

/-- The loop of `have_route`: it takes out what has timed out until it finds the route. It
returns the entries, how many were taken out, and whether the route was found. -/
def haveRouteFrom (now : ℕ) (daddr : Addr) (path : List Addr) :
    List RtEntry → List RtEntry × ℕ × Bool
  | [] => ([], 0, false)
  | e :: es =>
      let r := haveRouteFrom now daddr path es
      if e.used then
        if e.fresh now then
          if sameRoute daddr path e then ({ e with time := now } :: es, 0, true)
          else (e :: r.1, r.2.1, r.2.2)
        else (e.clean :: r.1, r.2.1 + 1, r.2.2)
      else (e :: r.1, r.2.1, r.2.2)

def haveRoute (now : ℕ) (daddr : Addr) (path : List Addr) (c : RtCache) : RtCache × Bool :=
  let r := haveRouteFrom now daddr path c.entries
  ({ entries := r.1, size := c.size - r.2.1 }, r.2.2)

/-- The slot `add_new_forward_route` and `add_new_reverse_route` write to. -/
def RtCache.slot (c : RtCache) : ℕ :=
  if c.size < routeCacheSize then SlotTable.firstFree RtEntry.used c.entries
  else SlotTable.oldest RtEntry.used RtEntry.time c.entries

/-- `add_new_forward_route`, where `path` is the list it is given, and `add_new_reverse_route`,
where it is that list reversed. More relays than an entry has room for would be written over what
follows it. -/
def addNewRoute (now : ℕ) (daddr : Addr) (path : List Addr) (c : RtCache) : Option RtCache :=
  if path.length ≤ maxRouteLen then
    some { entries := c.entries.modify c.slot (RtEntry.fill now daddr path)
           size := if c.size < routeCacheSize then c.size + 1 else c.size }
  else none

/-- What `add_forward_route` and `add_reverse_route` do for one destination: nothing is added if
the route over `addr` is there, and otherwise the route over `path`. -/
def learnRoute (now : ℕ) (daddr : Addr) (addr path : List Addr) (c : RtCache) :
    Option (RtCache × Bool) :=
  let r := haveRoute now daddr addr c
  if r.2 then some (r.1, false) else (addNewRoute now daddr path r.1).map (·, true)

/-- A destination, the relays `have_route` is asked for, and those of the route that is added if
it does not find them. -/
abbrev Offer := Addr × List Addr × List Addr

/-- The routes `add_reverse_route` goes through: to each node of the list, from the last one on,
and to the node it comes from. The routes it adds are the other way round than those it
looks for. -/
def reverseOffers (subnet : Addr → Bool) (daddr : Addr) (addr : List Addr) : List Offer :=
  (List.range addr.length).map (fun i =>
    (addr.getD (addr.length - i - 1) 0, addr.drop (addr.length - i),
      (addr.drop (addr.length - i)).reverse)) ++
  if subnet daddr then [(daddr, addr, addr.reverse)] else []

/-- The `n` words from `addr + i` on; those that follow the list are `beyond`. -/
def wordsAt (addr : List Addr) (beyond : ℕ → Addr) (i n : ℕ) : List Addr :=
  (List.range n).map fun j => addr.getD (i + j) (beyond (i + j - addr.length))

/-- The routes `add_forward_route` goes through: for the node `i` of the list, `i` words from the
one before it on. -/
def forwardOffers (subnet : Addr → Bool) (daddr : Addr) (addr : List Addr) (beyond : ℕ → Addr) :
    List Offer :=
  (List.range addr.length).map (fun i =>
    (addr.getD i 0, wordsAt addr beyond (i - 1) i, wordsAt addr beyond (i - 1) i)) ++
  if subnet daddr then [(daddr, addr, addr)] else []

/-- The loop of `add_forward_route` and `add_reverse_route`, as far as it concerns the cache. -/
def learnRoutes (now : ℕ) : List Offer → RtCache → Option RtCache
  | [], c => some c
  | o :: offers, c => (learnRoute now o.1 o.2.1 o.2.2 c).bind fun r => learnRoutes now offers r.1

/-- An entry that `lookup_route` takes instead of the one it has. -/
def RtEntry.better (e r : RtEntry) : Bool :=
  e.segsLeft < r.segsLeft || (e.segsLeft == r.segsLeft && r.time < e.time)

/-- The choice that the loop of `lookup_route` makes: `best` is the slot it has, with its
entry. -/
def bestFrom (now : ℕ) (dst : Addr) : ℕ → Option (ℕ × RtEntry) → List RtEntry →
    Option (ℕ × RtEntry)
  | _, best, [] => best
  | i, best, e :: es =>
      if e.live now && e.dst == dst && best.all (fun b => e.better b.2) then
        bestFrom now dst (i + 1) (some (i, e)) es
      else bestFrom now dst (i + 1) best es

def RtCache.takeOut (p : RtEntry → Bool) (c : RtCache) : RtCache where
  entries := c.entries.map (RtEntry.clearIf p)
  size := c.size - c.entries.countP fun e => e.used && p e

/-- `lookup_route`: the route it finds gets a new time. -/
def lookupRoute (now : ℕ) (dst : Addr) (c : RtCache) : RtCache × Option RtEntry :=
  let c' := c.takeOut fun e => !e.fresh now
  match bestFrom now dst 0 none c.entries with
  | none => (c', none)
  | some (i, e) =>
      ({ c' with entries := c'.entries.modify i fun e => { e with time := now } },
        some { e with time := now })

/-- The word `k` of the array of relays; the one after the last is the destination. -/
def RtEntry.word (e : RtEntry) (k : ℕ) : Addr :=
  (e.addr ++ [e.dst]).getD k 0

/-- The test of `remove_route`. The word after the last relay is compared too. -/
def RtEntry.usesHop (ipaddr srchop dsthop : Addr) (e : RtEntry) : Bool :=
  if e.segsLeft = 0 then ipaddr == srchop && e.dst == dsthop
  else ipaddr == srchop && e.word 0 == dsthop ||
    e.word (e.segsLeft - 1) == srchop && e.dst == dsthop ||
    (List.range e.segsLeft).any fun j => e.word j == srchop && e.word (j + 1) == dsthop

def removeRoute (now : ℕ) (ipaddr srchop dsthop : Addr) : RtCache → RtCache :=
  RtCache.takeOut fun e => !e.fresh now || e.usesHop ipaddr srchop dsthop

end WirelessMesh.Dsr
