import Rebalancing.Channel.Listing
import Rebalancing.Liquidity.Sampling

/-! # Aging of liquidity estimates

An estimate drifts upward by a random amount at every refresh, never below half of the capacity and
never above all of it. -/

namespace Rebalancing

/-- The window that the drift is drawn from. -/
structure Aging where
  average : Msat := 10000000
  variance : Msat := 5000000
deriving DecidableEq

namespace Aging

/-- A drift from the window around the average. -/
def draw (aging : Aging) (supply : WordSupply) : Msat × WordSupply :=
  supply.between (aging.average.satSub aging.variance) (aging.average.satAdd aging.variance)

/-- Several drifts in turn. -/
def draws (aging : Aging) : Nat → WordSupply → List Msat × WordSupply
  | 0, supply => ([], supply)
  | n + 1, supply =>
    let (drift, supply) := aging.draw supply
    let (drifts, supply) := draws aging n supply
    (drift :: drifts, supply)

/-- The next estimate of a channel of the given capacity. -/
def age (previous drift capacity : Msat) : Msat :=
  min (max ((min previous capacity).satAdd drift) (capacity / 2)) capacity

end Aging

end Rebalancing
