import Rebalancing.Proofs.Path.Sound

/-!
# How complete the path search is

The search keeps the cheapest way to each label and drops the others.  A cheaper way asks
less of the channels in front of it, so dropping a dearer one loses nothing, unless a
channel in front wants to carry more than the cheaper one asks for.  So when no path is
found, every way that there is is shadowed by a cheaper one (`Query.IsShadowed`), and there
is none at all whose channels accept the amount asked for.
-/

namespace Rebalancing

namespace Search

variable {graph : Graph} {query : Query} {settled : List Label} {search : Search}
  {channels : List Channel}

/-- A search that has emptied its queue has no way to the source that is not shadowed. -/
theorem Explores.isShadowed (h : Explores graph query settled search) (indexed : graph.IsIndexed)
    (empty : search.queue = []) (way : query.IsWay graph query.source channels) :
    query.IsShadowed graph channels := by
  obtain atSource | queued | shadowed := h.within_or_isShadowed indexed way
  · exact absurd atSource h.coherent.not_settledWithin_source
  · exact absurd queued (not_queuedWithin_of_empty empty)
  · exact shadowed

end Search

namespace Graph

/-- **Completeness.**  If the path search of an indexed graph answers that there is no route, then at
some channel of every way a cheaper way behind it asks for less than that channel accepts.  So there
is no way whose channels accept the amount asked for.  The same is so of any other order among visits
of equal cost. -/
theorem isShadowed_of_findPath_eq_noRoute {graph : Graph} {query : Query}
    (indexed : graph.IsIndexed) (ends : query.source ≠ query.destination)
    (positive : 0 < query.amount) :
    (graph.findPath query = .error (.noRoute query.source query.destination) →
      ∀ channels, query.IsWay graph query.source channels →
        query.IsShadowed graph channels ∧
          ∃ channel ∈ channels, query.amount < channel.minHtlc) ∧
    ∀ settled search, Search.Explores graph query settled search → search.queue = [] →
      ∀ channels, query.IsWay graph query.source channels →
        query.IsShadowed graph channels := by
  refine ⟨?_, fun _ _ explores empty _ way => explores.isShadowed indexed empty way⟩
  intro none channels way
  obtain ⟨settled, search, explores, empty, -⟩ | ⟨_, _, _, _, _, -, -, -, hfound⟩ :=
    findPath_cases indexed ends positive
  · have shadowed := explores.isShadowed indexed empty way
    exact ⟨shadowed, shadowed.exists_lt_minHtlc⟩
  · rw [hfound] at none
    cases none

/-! ### A strait -/

/-- A channel of the strait, which charges a flat fee and carries no less than a minimum. -/
def straitChannel (block : UInt32) (source destination : String) (baseFee minHtlc : Msat) :
    Channel where
  scid := .ofParts block 0 0
  source := ⟨source⟩
  destination := ⟨destination⟩
  capacity := 100000000
  liquidity := 50000000
  baseFee
  feePerMillionth := 0
  minHtlc
  maxHtlc := 100000000
  delay := 10
  active := true
  lastUpdate := 0

/-- The channel from `A` to `B` carries no less than 1000500.  Behind it are a free channel and one
that charges 1000. -/
def straitChannels : List Channel :=
  [straitChannel 1 "A" "B" 0 1000500, straitChannel 2 "B" "C" 0 1, straitChannel 3 "B" "C" 1000 1]

def strait : Graph := empty.addAll straitChannels

def straitQuery : Query where
  source := ⟨"A"⟩
  destination := ⟨"C"⟩
  amount := 1000000
  maxHops := 2

/-- With the fee of the dearer channel the first one has enough to carry. -/
def straitWay : List Channel := [straitChannel 1 "A" "B" 0 1000500, straitChannel 3 "B" "C" 1000 1]

theorem strait_isIndexed : strait.IsIndexed :=
  isIndexed_empty.addAll (by decide +kernel) (by decide +kernel)

theorem strait_isWay : straitQuery.IsWay strait straitQuery.source straitWay where
  stored := by
    have stored : ∀ channel ∈ straitWay, strait.channel? channel.id = some channel := by
      decide +kernel
    exact fun channel mem => ⟨channel.scid, stored channel mem⟩
  connects := by decide +kernel
  within := .inr (by decide)
  permitted := by decide +kernel
  usable := by decide +kernel
  priced := by decide +kernel

theorem findPath_strait :
    strait.findPath straitQuery = .error (.noRoute straitQuery.source straitQuery.destination) := by
  decide +kernel

/-- The way through the strait is shadowed by the free channel. -/
theorem isShadowed_strait :
    strait.findPath straitQuery = .error (.noRoute straitQuery.source straitQuery.destination) ∧
    straitQuery.IsWay strait straitQuery.source straitWay ∧
    straitQuery.IsShadowed strait straitWay :=
  ⟨findPath_strait, strait_isWay,
    ((isShadowed_of_findPath_eq_noRoute strait_isIndexed (by decide) (by decide)).1 findPath_strait
      _ strait_isWay).1⟩

/-- That no route is found does not mean that there is no way, not even one that comes by each node
once. -/
theorem strait_not_complete : ¬ ∀ (graph : Graph) (query : Query), graph.IsIndexed →
    query.source ≠ query.destination → 0 < query.amount →
    graph.findPath query = .error (.noRoute query.source query.destination) →
    ¬ ∃ channels, query.IsWay graph query.source channels ∧
      (query.visited (query.hopsOver channels)).Nodup := by
  intro complete
  refine complete strait straitQuery strait_isIndexed (by decide) (by decide) findPath_strait ?_
  exact ⟨straitWay, strait_isWay, by decide +kernel⟩

end Graph

end Rebalancing
