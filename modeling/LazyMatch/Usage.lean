import LazyMatch.Tuning

/-!
# Usage of a pattern

Three counters tell how a pattern is used: searches, matches, and matches whose groups were asked
for. From them and the knobs follows when the strategy is reconsidered and whether finding groups at
once is the cheaper one. Counters are 64-bit words, and shares are compared by cross-multiplying.
-/

namespace LazyMatch

/-- How a pattern has been used so far. -/
structure Usage where
  calls : UInt64 := 0
  matched : UInt64 := 0
  groupAccesses : UInt64 := 0
deriving DecidableEq, Repr

namespace Usage

def none : Usage := {}

def countSearch (u : Usage) (found : Bool) : Usage :=
  { u with
    calls := u.calls + 1
    matched := if found then u.matched + 1 else u.matched }

def countAccesses (u : Usage) (n : Nat) : Usage :=
  { u with groupAccesses := u.groupAccesses + UInt64.ofNat n }

/-- After how many searches the strategy is reconsidered; 0 means after each. -/
def period (t : Tuning) : UInt64 :=
  (max t.tripPoint 1).toUInt64

def atTripPoint (u : Usage) (t : Tuning) : Bool :=
  u.calls ≠ 0 && u.calls % period t = 0

/-- Whether finding groups at once is the cheaper strategy. -/
def favoursEager (u : Usage) (t : Tuning) : Bool :=
  -- Shares are compared by products of words, which may wrap.
  t.minCalls.toUInt64 ≤ u.calls
    && u.calls * t.minMatchPercent.toUInt64 ≤ u.matched * 100
    && u.matched * t.minGroupAccessPercent.toUInt64 ≤ u.groupAccesses * 100

end Usage

end LazyMatch
