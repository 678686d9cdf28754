import Mathlib.Algebra.BigOperators.Intervals
import Rebalancing.Proofs.Route.Chain

/-!
# Route edits

A channel is put in front of a route or behind it, or its final delay is set, and all hops
are derived again.  `Route.IsNormal` says what they are then, and what becomes of the fee and
the delay of the route when words saturate.  Every edit ends in this form and starts from the
channels alone, so a route does not show in which order it was put together: the channels and
the ends that the edits add up to tell all its hops.
-/

namespace Rebalancing

namespace Route

/-- What can be done to a route once it is made. -/
inductive Edit where
  | prepend (channel : Channel)
  | append (channel : Channel)
  | finalDelay (delay : UInt32)

def Edit.apply : Edit → Route → Route
  | .prepend channel, route => route.prepend channel
  | .append channel, route => route.append channel
  | .finalDelay delay, route => route.withFinalDelay delay

/-- A route after some edits, the first one first. -/
def edited (route : Route) (edits : List Edit) : Route :=
  edits.foldl (fun route edit => edit.apply route) route

/-- A hop carries what enters the next one. -/
def Feeds (hop next : Hop) : Prop :=
  hop.amount = next.amount.satAdd (next.channel.fee next.amount) ∧
    hop.delay = next.delay.satAdd next.channel.delay

/-- A hop carries no less than a later one, and for no less time. -/
def Covers (hop next : Hop) : Prop :=
  next.amount ≤ hop.amount ∧ next.delay ≤ hop.delay

/-- The form that every edit leaves a route in. -/
structure IsNormal (route : Route) : Prop where
  last : ∀ hop, route.hops.getLast? = some hop →
    hop.amount = route.amount ∧ hop.delay = route.finalDelay
  feeds : route.hops.IsChain Feeds
  covers : route.hops.Pairwise Covers
  /-- The fee is made up of what is charged at all hops, as far as what is sent is a word. -/
  fee_eq : ∀ n, route.hops.length ≤ n → route.fee.toNat =
    min (∑ index ∈ Finset.range n, (route.hopFee index).toNat)
      (0xffffffffffffffff - route.amount.toNat)
  totalDelay_eq : route.totalDelay.toNat =
    min (route.finalDelay.toNat + (route.hops.tail.map (·.channel.delay.toNat)).sum) 0xffffffff

variable {route route' : Route} {amount : Msat} {delay : UInt32} {channels : List Channel}

/-! ## The hops of a chain -/

theorem getLast?_chain {hop : Hop} (h : (chain amount delay channels).getLast? = some hop) :
    hop.amount = amount ∧ hop.delay = delay := by
  induction channels with
  | nil => cases h
  | cons channel rest ih =>
    cases rest with
    | nil =>
      cases h
      exact ⟨rfl, rfl⟩
    | cons => exact ih h

theorem isChain_chain : (chain amount delay channels).IsChain Feeds := by
  induction channels with
  | nil => exact List.isChain_nil
  | cons channel rest ih =>
    cases rest with
    | nil => exact List.isChain_singleton _
    | cons => exact List.isChain_cons_cons.mpr ⟨⟨rfl, rfl⟩, ih⟩

/-- What enters a chain is the delay delivered and those of all its channels, up to the greatest
word. -/
theorem toNat_delay_entering_chain : (entering amount delay (chain amount delay channels)).2.toNat =
    min (delay.toNat + (channels.map (·.delay.toNat)).sum) 0xffffffff := by
  induction channels with
  | nil =>
    have := delay.toNat_lt
    simp only [chain, entering, List.map_nil, List.sum_nil]
    omega
  | cons channel rest ih =>
    rw [List.map_cons, List.sum_cons, chain_cons, entering, Hop.entering, UInt32.toNat_satAdd, ih]
    simp only
    omega

instance : Trans Covers Covers Covers where
  trans h h' := ⟨UInt64.le_trans h'.1 h.1, UInt32.le_trans h'.2 h.2⟩

/-- What enters a hop is no less than what it carries. -/
theorem Feeds.covers {hop next : Hop} (h : Feeds hop next) : Covers hop next := by
  obtain ⟨hamount, hdelay⟩ := h
  rw [Covers, hamount, hdelay]
  exact ⟨UInt64.le_satAdd _ _, UInt32.le_satAdd _ _⟩

/-! ## Derived routes -/

/-- A route whose hops are what deriving them again leads to. -/
def IsSettled (route : Route) : Prop :=
  route.hops = chain route.amount route.finalDelay route.channels

theorem isSettled_settle (route : Route) : route.settle.IsSettled := by
  rw [IsSettled, channels_settle]
  rfl

theorem isSettled_edited (settled : route.IsSettled) (edits : List Edit) :
    (route.edited edits).IsSettled := by
  induction edits generalizing route with
  | nil => exact settled
  | cons edit edits ih =>
    refine ih ?_
    cases edit with
    | prepend | append | finalDelay => exact isSettled_settle _

/-- The amount is not edited. -/
theorem amount_edited (route : Route) (edits : List Edit) :
    (route.edited edits).amount = route.amount := by
  induction edits generalizing route with
  | nil => rfl
  | cons edit edits ih =>
    refine (ih _).trans ?_
    cases edit with
    | prepend | append | finalDelay => rfl

/-! ## Fee and delay -/

/-- What is charged at the hops of a list, one by one. -/
theorem sum_fee {hops : List Hop} {n : Nat} (le : hops.length ≤ n) :
    ∑ index ∈ Finset.range n,
      ((hops[index]?.map fun hop : Hop => hop.channel.fee hop.amount).getD 0).toNat =
        Hop.feeSum hops := by
  induction hops generalizing n with
  | nil => exact Finset.sum_eq_zero fun _ _ => rfl
  | cons hop hops ih =>
    cases n with
    | zero => cases le
    | succ n =>
      rw [Finset.sum_range_succ', Hop.feeSum_cons, Nat.add_comm]
      exact congrArg _ (ih (Nat.le_of_succ_le_succ le))

/-- Nothing is charged at the first hop. -/
theorem sum_hopFee {n : Nat} (le : route.hops.length ≤ n) :
    ∑ index ∈ Finset.range n, (route.hopFee index).toNat = Hop.feeSum route.hops.tail := by
  cases n with
  | zero =>
    rw [List.eq_nil_of_length_eq_zero (Nat.le_zero.mp le)]
    rfl
  | succ n =>
    have le : route.hops.tail.length ≤ n := by
      rw [List.length_tail]
      omega
    have first : (route.hopFee 0).toNat = 0 := rfl
    rw [Finset.sum_range_succ', first, Nat.add_zero, ← sum_fee le]
    refine Finset.sum_congr rfl fun index _ => ?_
    rw [hopFee, if_neg (Nat.succ_ne_zero index), List.getElem?_tail]

theorem IsSettled.tail_eq (h : route.IsSettled) :
    route.hops.tail = chain route.amount route.finalDelay route.channels.tail := by
  rw [h]
  cases route.channels with
  | nil => rfl
  | cons => rfl

/-- A payer sends what enters the second hop, for as long as that asks for. -/
theorem IsSettled.sent_eq (h : route.IsSettled) :
    route.sent = (entering route.amount route.finalDelay route.hops.tail).1 ∧
      route.totalDelay = (entering route.amount route.finalDelay route.hops.tail).2 := by
  have hhops : route.hops = chain route.amount route.finalDelay route.channels := h
  rw [sent, totalDelay, hhops]
  cases route.channels with
  | nil => exact ⟨rfl, rfl⟩
  | cons => exact ⟨rfl, rfl⟩

/-- The fee is made up of the fees of all hops but the first, as far as words go. -/
theorem IsSettled.toNat_fee (h : route.IsSettled) : route.fee.toNat =
    min (Hop.feeSum route.hops.tail) (0xffffffffffffffff - route.amount.toNat) := by
  have := route.amount.toNat_lt
  rw [fee, UInt64.toNat_satSub, h.sent_eq.1, h.tail_eq, toNat_entering_chain]
  omega

/-- So is the delay made up of the delays of their channels. -/
theorem IsSettled.toNat_totalDelay (h : route.IsSettled) : route.totalDelay.toNat =
    min (route.finalDelay.toNat + (route.hops.tail.map (·.channel.delay.toNat)).sum) 0xffffffff := by
  have hchannels : route.hops.tail.map (·.channel.delay.toNat) =
      route.channels.tail.map (·.delay.toNat) := by
    rw [channels, ← List.map_tail, List.map_map]
    rfl
  rw [hchannels, h.sent_eq.2, h.tail_eq, toNat_delay_entering_chain]

/-- A route whose hops are derived is in normal form. -/
theorem IsSettled.isNormal (h : route.IsSettled) : route.IsNormal := by
  have feeds : route.hops.IsChain Feeds := by
    rw [h]
    exact isChain_chain
  refine { last := ?last, feeds, covers := ?covers, fee_eq := ?fee_eq
           totalDelay_eq := h.toNat_totalDelay }
  case last =>
    intro hop hlast
    rw [h] at hlast
    exact getLast?_chain hlast
  case covers => exact List.isChain_iff_pairwise.mp (feeds.imp fun _ _ => Feeds.covers)
  case fee_eq =>
    intro n le
    rw [sum_hopFee le, h.toNat_fee]

/-- Settled routes with the same ends, amount, final delay and channels are the same. -/
theorem IsSettled.ext (h : route.IsSettled) (h' : route'.IsSettled)
    (source : route.source = route'.source) (destination : route.destination = route'.destination)
    (amount : route.amount = route'.amount) (finalDelay : route.finalDelay = route'.finalDelay)
    (channels : route.channels = route'.channels) : route = route' := by
  have hops : route.hops = route'.hops := by
    rw [h, h', amount, finalDelay, channels]
  cases route
  cases route'
  simp_all

/-! ## What edits add up to -/

/-- The channel that an edit puts in front. -/
def Edit.front? : Edit → Option Channel
  | .prepend channel => some channel
  | _ => none

/-- The channel that an edit puts behind. -/
def Edit.back? : Edit → Option Channel
  | .append channel => some channel
  | _ => none

/-- The final delay that an edit sets. -/
def Edit.delay? : Edit → Option UInt32
  | .finalDelay delay => some delay
  | _ => none

variable (route) (edits : List Edit)

/-- The channels put in front come in reverse order, then those that were there, then those put
behind. -/
theorem channels_edited : (route.edited edits).channels =
    (edits.filterMap Edit.front?).reverse ++ route.channels ++ edits.filterMap Edit.back? := by
  induction edits generalizing route with
  | nil => exact (List.append_nil _).symm
  | cons edit edits ih =>
    refine (ih (edit.apply route)).trans ?_
    cases edit with
    | prepend | append | finalDelay =>
      simp [Edit.apply, Edit.front?, Edit.back?, List.filterMap_cons]

/-- A field that each edit either sets or leaves alone has the value that was set last. -/
theorem field_edited {α : Type} {field : Route → α} {set? : Edit → Option α}
    (h : ∀ edit route, field (edit.apply route) = (set? edit).getD (field route)) :
    field (route.edited edits) = (edits.filterMap set?).getLast?.getD (field route) := by
  induction edits generalizing route with
  | nil => rfl
  | cons edit edits ih =>
    refine (ih (edit.apply route)).trans ?_
    rw [h, List.filterMap_cons]
    cases set? edit with
    | none => rfl
    | some value =>
      simp only [List.getLast?_cons, Option.getD_some]

/-- A route begins where the last channel put in front of it does. -/
theorem source_edited : (route.edited edits).source =
    (edits.filterMap fun edit => edit.front?.map (·.source)).getLast?.getD route.source := by
  refine field_edited route edits fun edit route => ?_
  cases edit with
  | prepend | append | finalDelay => rfl

/-- It ends where the last channel put behind it does. -/
theorem destination_edited : (route.edited edits).destination =
    (edits.filterMap fun edit => edit.back?.map (·.destination)).getLast?.getD
      route.destination := by
  refine field_edited route edits fun edit route => ?_
  cases edit with
  | prepend | append | finalDelay => rfl

theorem finalDelay_edited : (route.edited edits).finalDelay =
    (edits.filterMap Edit.delay?).getLast?.getD route.finalDelay := by
  refine field_edited route edits fun edit route => ?_
  cases edit with
  | prepend | append | finalDelay => rfl

variable {route}

/-- The hops of an edited route are derived from what the edits add up to. -/
theorem IsSettled.hops_edited (settled : route.IsSettled) : (route.edited edits).hops =
    chain route.amount ((edits.filterMap Edit.delay?).getLast?.getD route.finalDelay)
      ((edits.filterMap Edit.front?).reverse ++ route.channels ++ edits.filterMap Edit.back?) := by
  rw [isSettled_edited settled edits, amount_edited, finalDelay_edited, channels_edited]

/-! ## Edited routes -/

/-- **Edits.**  A route made of any hops and edited in any way delivers the amount it was made for and is
in normal form; another that was made and edited in any way is the same if it has the same ends,
amount, final delay and channels; and edits of different kinds commute. -/
theorem edited_isNormal (source destination : NodeId) (amount : Msat) (hops : List Hop)
    (edits : List Edit) :
    ((ofHops source destination amount hops).edited edits).amount = amount ∧
    ((ofHops source destination amount hops).edited edits).IsNormal ∧
    (∀ source' destination' amount' hops' edits',
      let route := (ofHops source destination amount hops).edited edits
      let route' := (ofHops source' destination' amount' hops').edited edits'
      route.source = route'.source → route.destination = route'.destination →
        route.amount = route'.amount → route.finalDelay = route'.finalDelay →
          route.channels = route'.channels → route = route') ∧
    ∀ (route : Route) (first last : Channel) (delay : UInt32),
      (route.prepend first).append last = (route.append last).prepend first ∧
      (route.prepend first).withFinalDelay delay = (route.withFinalDelay delay).prepend first ∧
      (route.append last).withFinalDelay delay = (route.withFinalDelay delay).append last := by
  have settled (source destination : NodeId) (amount : Msat) (hops : List Hop)
      (edits : List Edit) : ((ofHops source destination amount hops).edited edits).IsSettled :=
    isSettled_edited (isSettled_settle _) edits
  refine ⟨amount_edited _ edits, (settled ..).isNormal, ?_, ?_⟩
  · intro source' destination' amount' hops' edits'
    exact (settled ..).ext (settled ..)
  · intro route first last delay
    simp [prepend, append, withFinalDelay, settle, channels]

end Route

end Rebalancing
