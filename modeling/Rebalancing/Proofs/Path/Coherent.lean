import Mathlib.Data.List.Nodup
import Rebalancing.Proofs.Path.Explored

/-!
# The invariant of a path search

What all states of a search have in common, for any graph, also one whose indices
disagree with its records.  One offer and one settled visit keep it, and so does a
whole run.
-/

namespace Rebalancing

open Std

namespace Search

/-- The hop of a label was recorded from the label behind it. -/
structure Recorded (graph : Graph) (query : Query) (search : Search) (label : Label) (hop : Hop)
    (behind : Label) : Prop where
  edge : (label.node, hop.channel) ∈ query.edges graph behind.node
  label_eq : label = query.before label.node behind
  notFull : query.isFull behind.layer = false
  carried : search.carried query behind = (hop.amount, hop.delay)
  usable : hop.channel.canUse hop.amount
  cost : search.costOf label = (search.costOf behind).satAdd (hop.channel.fee hop.amount)

/-- A visit in the queue is no cheaper than its label, and one as cheap stands for it. -/
structure Queued (query : Query) (search : Search) (visit : Visit) : Prop where
  le : search.costOf (query.labelOf visit) ≤ visit.cost
  finite : visit.cost < 0xffffffffffffffff
  within : query.maxHops = 0 ∨ visit.hops ≤ query.maxHops
  carried : visit.cost = search.costOf (query.labelOf visit) →
    search.carried query (query.labelOf visit) = (visit.amount, visit.delay)

/-- A settled label is final: it has a price, a place, and is not of the source. -/
structure Settled (query : Query) (search : Search) (label : Label) : Prop where
  finite : search.costOf label < 0xffffffffffffffff
  layer : query.layer label.layer = label.layer
  ne_source : label.node ≠ query.source
  le_queue : ∀ visit ∈ search.queue, search.costOf label ≤ visit.cost
  stale : ∀ visit ∈ search.queue, query.labelOf visit = label → search.costOf label < visit.cost

/-- The invariant of a search. -/
structure Coherent (graph : Graph) (query : Query) (settled : List Label) (search : Search) :
    Prop where
  nodup : settled.Nodup
  isSettled : ∀ label ∈ settled, Settled query search label
  queued : ∀ visit ∈ search.queue, Queued query search visit
  distinct : search.queue.Pairwise fun v w => query.labelOf v = query.labelOf w → v.cost ≠ w.cost
  waiting : ∀ label, search.costOf label < 0xffffffffffffffff → label ∉ settled →
    ∃ visit ∈ search.queue, query.labelOf visit = label ∧ visit.cost = search.costOf label
  cost_origin : search.costOf query.origin = 0
  hops_destination : ∀ label : Label, label.node = query.destination → search.hops[label]? = none
  hops_isSome : ∀ label, search.costOf label < 0xffffffffffffffff → label ≠ query.origin →
    ∃ hop, search.hops[label]? = some hop
  recorded : ∀ label hop, search.hops[label]? = some hop → ∃ behind ∈ settled,
    settled.idxOf behind < settled.idxOf label ∧ Recorded graph query search label hop behind
  amount : ∀ label, search.costOf label < 0xffffffffffffffff →
    (search.carried query label).1 = query.amount.satAdd (search.costOf label)

/-- Every channel in front of a settled label has been offered. -/
def Relaxed (graph : Graph) (query : Query) (search : Search) (label : Label) : Prop :=
  query.isFull label.layer = false →
  ∀ peer channel, (peer, channel) ∈ query.edges graph label.node →
    channel.canUse (search.carried query label).1 →
    search.costOf (query.before peer label) ≤
      (search.costOf label).satAdd (channel.fee (search.carried query label).1)

/-- The visit that has just been settled, while channels are offered in front of it. -/
structure Current (query : Query) (settled : List Label) (search : Search) (visit : Visit) :
    Prop where
  mem : query.labelOf visit ∈ settled
  notFull : query.isFull visit.hops = false
  cost : search.costOf (query.labelOf visit) = visit.cost
  carried : search.carried query (query.labelOf visit) = (visit.amount, visit.delay)
  greatest : ∀ label ∈ settled, search.costOf label ≤ visit.cost

variable {graph : Graph} {query : Query} {settled : List Label} {search : Search}
  {visit : Visit} {rest : List Visit} {label : Label} {peer : NodeId} {channel : Channel}

/-! ## The start -/

theorem costOf_start : (start query).costOf label =
    if label = query.origin then 0 else 0xffffffffffffffff := by
  rw [start, costOf, ExtTreeMap.getD_insert]
  by_cases h : query.origin = label
  · simp [← h, Query.origin]
  · have h' : ¬ compare (Label.mk query.destination 0) label = .eq := by
      rwa [LawfulEqCmp.compare_eq_iff_eq]
    rw [if_neg h', if_neg (Ne.symm h)]
    simp

theorem carried_start : (start query).carried query label = (query.amount, 0) := by
  simp [carried, start, Route.entering]

theorem coherent_start : Coherent graph query [] (start query) where
  nodup := List.nodup_nil
  isSettled := by simp
  queued := by
    intro visit h
    rw [start, List.mem_singleton] at h
    subst h
    have hl : query.labelOf ⟨query.destination, 0, query.amount, 0, 0⟩ = query.origin := by
      simp [Query.labelOf, Query.origin, Query.layer]
    have finite : (0 : UInt64) < 0xffffffffffffffff := by decide
    refine ⟨?_, finite, .inr (Nat.zero_le _), fun _ => carried_start⟩
    rw [hl, costOf_start, if_pos rfl]
    exact UInt64.le_refl _
  distinct := List.pairwise_singleton _ _
  waiting := by
    intro label h _
    rw [costOf_start] at h
    split at h
    next hl =>
      refine ⟨_, List.mem_singleton_self _, ?_, ?_⟩
      · simp [hl, Query.labelOf, Query.origin, Query.layer]
      · rw [costOf_start, if_pos hl]
    next => exact absurd h (by decide)
  cost_origin := by rw [costOf_start, if_pos rfl]
  hops_destination := by simp [start]
  hops_isSome := by
    intro label h hne
    rw [costOf_start, if_neg hne] at h
    exact absurd h (by decide)
  recorded := by simp [start]
  amount := by
    intro label h
    rw [costOf_start] at h ⊢
    split at h
    next hl => rw [if_pos hl, carried_start, UInt64.satAdd_zero]
    next => exact absurd h (by decide)

/-! ## An offer -/

theorem costOf_improve_le {hop : Hop} (better : visit.cost < search.costOf label) (other : Label) :
    (search.improve label hop visit).costOf other ≤ search.costOf other := by
  rw [costOf_improve]
  split
  next h => exact h ▸ UInt64.le_of_lt better
  next => exact UInt64.le_refl _

/-- What an offer improves is not settled: it costs more than the visit that is extended. -/
theorem Current.before_not_mem (current : Current query settled search visit)
    (better : (extend visit peer channel).cost <
      search.costOf (query.before peer (query.labelOf visit))) :
    query.before peer (query.labelOf visit) ∉ settled := fun h =>
  absurd (UInt64.lt_of_lt_of_le better (current.greatest _ h))
    (UInt64.not_lt.mpr (UInt64.le_satAdd _ _))

/-- An accepted offer leaves the visit that is extended as it is. -/
theorem Current.improve (current : Current query settled search visit) {hop : Hop} {next : Visit}
    (unsettled : label ∉ settled) :
    Current query settled (search.improve label hop next) visit where
  mem := current.mem
  notFull := current.notFull
  cost := by
    rw [costOf_improve, if_neg (ne_of_mem_of_not_mem current.mem unsettled), current.cost]
  carried := by
    rw [carried_improve_of_ne (ne_of_mem_of_not_mem current.mem unsettled), current.carried]
  greatest other h := by
    rw [costOf_improve, if_neg (ne_of_mem_of_not_mem h unsettled)]
    exact current.greatest other h

theorem Recorded.improve {hop hop' : Hop} {other behind : Label} {next : Visit}
    (h : Recorded graph query search other hop' behind) (ho : other ≠ label) (hb : behind ≠ label) :
    Recorded graph query (search.improve label hop next) other hop' behind where
  edge := h.edge
  label_eq := h.label_eq
  notFull := h.notFull
  carried := by rw [carried_improve_of_ne hb, h.carried]
  usable := h.usable
  cost := by rw [costOf_improve, costOf_improve, if_neg ho, if_neg hb, h.cost]

/-- A visit that was queued before an offer costs more than what the offer improves its label to. -/
theorem Queued.improve {hop : Hop} {next : Visit} (h : Queued query search visit)
    (better : next.cost < search.costOf label) :
    Queued query (search.improve label hop next) visit where
  le := UInt64.le_trans (costOf_improve_le better _) h.le
  finite := h.finite
  within := h.within
  carried hcost := by
    rw [costOf_improve] at hcost
    split at hcost
    next hl =>
      have hle := h.le
      rw [hcost, hl] at hle
      exact absurd (UInt64.lt_of_lt_of_le better hle) (UInt64.lt_irrefl _)
    next hl =>
      rw [carried_improve_of_ne hl]
      exact h.carried hcost

theorem idxOf_lt_idxOf_of_not_mem {behind : Label} (hb : behind ∈ settled) (hl : label ∉ settled) :
    settled.idxOf behind < settled.idxOf label := by
  rw [List.idxOf_eq_length hl]
  exact List.idxOf_lt_length_of_mem hb

/-- A settled label is not touched by an offer to another one, if that is no cheaper. -/
theorem Settled.improve {hop : Hop} {other : Label} {next : Visit}
    (h : Settled query search other) (ne : other ≠ label) (labelled : query.labelOf next = label)
    (le : search.costOf other ≤ next.cost) :
    Settled query (search.improve label hop next) other := by
  have hcost : (search.improve label hop next).costOf other = search.costOf other := by
    rw [costOf_improve, if_neg ne]
  refine ⟨hcost ▸ h.finite, h.layer, h.ne_source, ?_, ?_⟩
  · rw [hcost]
    exact List.forall_mem_cons.mpr ⟨le, h.le_queue⟩
  · rw [hcost]
    refine List.forall_mem_cons.mpr ⟨?_, h.stale⟩
    intro hl
    exact absurd (hl.symm.trans labelled) ne

/-- What a label has to forward is read off the hop that an offer records for it. -/
theorem carried_improve_self {hop : Hop} {next : Visit} :
    (search.improve label hop next).carried query label = hop.entering := by
  rw [carried, getElem?_hops_improve, if_pos rfl]
  rfl

/-- The visit that an accepted offer queues. -/
theorem Current.queued_extend (current : Current query settled search visit)
    (finite : (extend visit peer channel).cost < 0xffffffffffffffff) :
    Queued query (search.improve (query.before peer (query.labelOf visit))
      ⟨channel, visit.amount, visit.delay⟩ (extend visit peer channel))
        (extend visit peer channel) where
  le := by
    rw [labelOf_extend, costOf_improve, if_pos rfl]
    exact UInt64.le_refl _
  finite := finite
  within := by
    have notFull := current.notFull
    simp only [Query.isFull, ne_eq, Bool.and_eq_false_iff, decide_eq_false_iff_not, not_not,
      Nat.not_le] at notFull
    exact notFull
  carried _ := by
    rw [labelOf_extend, carried_improve_self]
    rfl

/-- The hop that an accepted offer records. -/
theorem Current.recorded_extend (current : Current query settled search visit)
    (edge : (peer, channel) ∈ query.edges graph visit.node) (usable : channel.canUse visit.amount)
    (unsettled : query.before peer (query.labelOf visit) ∉ settled) :
    Recorded graph query (search.improve (query.before peer (query.labelOf visit))
      ⟨channel, visit.amount, visit.delay⟩ (extend visit peer channel))
        (query.before peer (query.labelOf visit)) ⟨channel, visit.amount, visit.delay⟩
          (query.labelOf visit) where
  edge := edge
  label_eq := rfl
  notFull := by rw [Query.labelOf, Query.isFull_layer, current.notFull]
  carried := by
    rw [carried_improve_of_ne (ne_of_mem_of_not_mem current.mem unsettled), current.carried]
  usable := usable
  cost := by
    rw [costOf_improve, costOf_improve, if_pos rfl,
      if_neg (ne_of_mem_of_not_mem current.mem unsettled), current.cost]
    rfl

/-- The invariant survives an accepted offer. -/
theorem Coherent.improve (coherent : Coherent graph query settled search)
    (current : Current query settled search visit)
    (edge : (peer, channel) ∈ query.edges graph visit.node) (usable : channel.canUse visit.amount)
    (better : (extend visit peer channel).cost <
      search.costOf (query.before peer (query.labelOf visit))) :
    Coherent graph query settled (search.improve (query.before peer (query.labelOf visit))
      ⟨channel, visit.amount, visit.delay⟩ (extend visit peer channel)) := by
  have unsettled := current.before_not_mem better
  have finite : (extend visit peer channel).cost < 0xffffffffffffffff :=
    UInt64.lt_of_lt_of_le better (UInt64.le_greatest _)
  have hpeer : peer ≠ query.destination := (Query.mem_edges.mp edge).2.1
  have hne : ∀ other ∈ settled, other ≠ query.before peer (query.labelOf visit) :=
    fun other h => ne_of_mem_of_not_mem h unsettled
  refine { nodup := coherent.nodup, isSettled := ?isSettled, queued := ?queued,
           distinct := ?distinct, waiting := ?waiting, cost_origin := ?cost_origin,
           hops_destination := ?hops_destination, hops_isSome := ?hops_isSome,
           recorded := ?recorded, amount := ?amount }
  case isSettled =>
    intro other h
    refine (coherent.isSettled other h).improve (hne other h) labelOf_extend ?_
    exact UInt64.le_trans (current.greatest other h) (UInt64.le_satAdd _ _)
  case queued =>
    exact List.forall_mem_cons.mpr
      ⟨current.queued_extend finite, fun other h => (coherent.queued other h).improve better⟩
  case distinct =>
    refine List.pairwise_cons.mpr ⟨fun other h hl => ?_, coherent.distinct⟩
    rw [labelOf_extend] at hl
    rw [hl] at better
    exact UInt64.ne_of_lt (UInt64.lt_of_lt_of_le better (coherent.queued other h).le)
  case waiting =>
    intro other h hunsettled
    rw [costOf_improve] at h ⊢
    by_cases ho : other = query.before peer (query.labelOf visit)
    · refine ⟨_, List.mem_cons_self, ?_, ?_⟩
      · rw [labelOf_extend, ho]
      · rw [if_pos ho]
    · rw [if_neg ho] at h ⊢
      obtain ⟨queued, hqueued, hq⟩ := coherent.waiting other h hunsettled
      exact ⟨queued, List.mem_cons_of_mem _ hqueued, hq⟩
  case cost_origin =>
    rw [costOf_improve, if_neg, coherent.cost_origin]
    intro h
    exact hpeer (congrArg Label.node h).symm
  case hops_destination =>
    intro other h
    rw [getElem?_hops_improve, if_neg, coherent.hops_destination other h]
    intro h'
    exact hpeer ((congrArg Label.node h').symm.trans h)
  case hops_isSome =>
    intro other h ho
    rw [costOf_improve] at h
    rw [getElem?_hops_improve]
    split at h
    next hl => exact ⟨_, if_pos hl⟩
    next hl =>
      rw [if_neg hl]
      exact coherent.hops_isSome other h ho
  case recorded =>
    intro other hop h
    rw [getElem?_hops_improve] at h
    split at h
    next hl =>
      subst hl
      cases h
      exact ⟨_, current.mem, idxOf_lt_idxOf_of_not_mem current.mem unsettled,
        current.recorded_extend edge usable unsettled⟩
    next hl =>
      obtain ⟨behind, hbehind, hidx, hrecorded⟩ := coherent.recorded other hop h
      exact ⟨behind, hbehind, hidx, hrecorded.improve hl (hne behind hbehind)⟩
  case amount =>
    intro other h
    rw [costOf_improve] at h ⊢
    by_cases ho : other = query.before peer (query.labelOf visit)
    · have hamount := coherent.amount (query.labelOf visit)
        (coherent.isSettled _ current.mem).finite
      rw [current.carried, current.cost] at hamount
      rw [if_pos ho, ho, carried_improve_self]
      simp only [extend, Hop.entering] at hamount ⊢
      rw [← UInt64.satAdd_assoc, ← hamount]
    · rw [if_neg ho] at h ⊢
      rw [carried_improve_of_ne ho]
      exact coherent.amount other h

/-- What a run of offers in front of the current visit leads to. -/
structure Offered (graph : Graph) (query : Query) (settled : List Label) (before after : Search)
    (visit : Visit) (edges : List (NodeId × Channel)) : Prop where
  coherent : Coherent graph query settled after
  current : Current query settled after visit
  cost_le : ∀ label, after.costOf label ≤ before.costOf label
  cost_eq : ∀ label ∈ settled, after.costOf label = before.costOf label
  carried_eq : ∀ label ∈ settled, after.carried query label = before.carried query label
  offered : ∀ peer channel, (peer, channel) ∈ edges → channel.canUse visit.amount →
    after.costOf (query.before peer (query.labelOf visit)) ≤ (extend visit peer channel).cost

/-- One offer keeps the invariant, and lowers its label as far as the channel allows. -/
theorem offered_singleton (coherent : Coherent graph query settled search)
    (current : Current query settled search visit)
    (edge : (peer, channel) ∈ query.edges graph visit.node) :
    Offered graph query settled search (offer query visit visit.cost search (peer, channel)) visit
      [(peer, channel)] := by
  obtain ⟨usable, better, h⟩ | ⟨dear, h⟩ := offer_cases query visit search peer channel
  · have unsettled := current.before_not_mem better
    rw [h]
    refine ⟨coherent.improve current edge usable better, current.improve unsettled,
      costOf_improve_le better, ?_, ?_, ?_⟩
    · intro label hl
      rw [costOf_improve, if_neg (ne_of_mem_of_not_mem hl unsettled)]
    · intro label hl
      rw [carried_improve_of_ne (ne_of_mem_of_not_mem hl unsettled)]
    · intro peer' channel' he _
      cases List.mem_singleton.mp he
      rw [costOf_improve, if_pos rfl]
      exact UInt64.le_refl _
  · rw [h]
    refine ⟨coherent, current, fun _ => UInt64.le_refl _, fun _ _ => rfl, fun _ _ => rfl, ?_⟩
    intro peer' channel' he
    cases List.mem_singleton.mp he
    exact dear

/-- So does every list of offers. -/
theorem offered_foldl {edges : List (NodeId × Channel)}
    (coherent : Coherent graph query settled search)
    (current : Current query settled search visit)
    (sub : ∀ edge ∈ edges, edge ∈ query.edges graph visit.node) :
    Offered graph query settled search (edges.foldl (offer query visit visit.cost) search) visit
      edges := by
  induction edges generalizing search with
  | nil =>
    exact ⟨coherent, current, fun _ => UInt64.le_refl _, fun _ _ => rfl, fun _ _ => rfl, by simp⟩
  | cons edge edges ih =>
    obtain ⟨peer, channel⟩ := edge
    have one := offered_singleton coherent current (sub _ List.mem_cons_self)
    have all := ih one.coherent one.current fun edge h => sub edge (List.mem_cons_of_mem _ h)
    refine ⟨all.coherent, all.current, ?_, ?_, ?_, ?_⟩
    · exact fun label => UInt64.le_trans (all.cost_le label) (one.cost_le label)
    · exact fun label h => (all.cost_eq label h).trans (one.cost_eq label h)
    · exact fun label h => (all.carried_eq label h).trans (one.carried_eq label h)
    · intro peer' channel' he usable
      rcases List.mem_cons.mp he with heq | he
      · exact UInt64.le_trans (all.cost_le _)
          (one.offered peer' channel' (List.mem_singleton.mpr heq) usable)
      · exact all.offered peer' channel' he usable

/-! ## Taking a visit out of the queue -/

theorem Settled.mono {queue : List Visit} (h : Settled query search label)
    (sub : ∀ visit ∈ queue, visit ∈ search.queue) :
    Settled query { search with queue } label where
  finite := h.finite
  layer := h.layer
  ne_source := h.ne_source
  le_queue visit hv := h.le_queue visit (sub visit hv)
  stale visit hv := h.stale visit (sub visit hv)

/-- What a visit in the queue says of its label does not depend on the rest of the queue. -/
theorem Queued.mono {queue : List Visit} (h : Queued query search visit) :
    Queued query { search with queue } visit where
  le := h.le
  finite := h.finite
  within := h.within
  carried := h.carried

/-- Neither does what is recorded for a label. -/
theorem Recorded.mono {queue : List Visit} {hop : Hop} {behind : Label}
    (h : Recorded graph query search label hop behind) :
    Recorded graph query { search with queue } label hop behind where
  edge := h.edge
  label_eq := h.label_eq
  notFull := h.notFull
  carried := h.carried
  usable := h.usable
  cost := h.cost

theorem Coherent.distinct_cons (coherent : Coherent graph query settled search)
    (pick : Visit.IsPick search.queue visit rest) :
    (visit :: rest).Pairwise fun v w => query.labelOf v = query.labelOf w → v.cost ≠ w.cost :=
  (pick.perm.pairwise_iff fun h h' => (h h'.symm).symm).mp coherent.distinct

/-- A visit that stands for its label is not of a settled one. -/
theorem Coherent.labelOf_not_mem (coherent : Coherent graph query settled search)
    (pick : Visit.IsPick search.queue visit rest)
    (fresh : ¬ search.costOf (query.labelOf visit) < visit.cost) :
    query.labelOf visit ∉ settled := fun h =>
  fresh ((coherent.isSettled _ h).stale visit pick.mem rfl)

theorem Coherent.cost_eq (coherent : Coherent graph query settled search)
    (pick : Visit.IsPick search.queue visit rest)
    (fresh : ¬ search.costOf (query.labelOf visit) < visit.cost) :
    search.costOf (query.labelOf visit) = visit.cost :=
  UInt64.le_antisymm (coherent.queued visit pick.mem).le (UInt64.not_lt.mp fresh)

/-- Dropping a stale visit keeps the invariant. -/
theorem Coherent.drop (coherent : Coherent graph query settled search)
    (pick : Visit.IsPick search.queue visit rest)
    (stale : search.costOf (query.labelOf visit) < visit.cost) :
    Coherent graph query settled { search with queue := rest } where
  nodup := coherent.nodup
  isSettled label h := (coherent.isSettled label h).mono fun _ => pick.mem_of_mem_rest
  queued other h := (coherent.queued other (pick.mem_of_mem_rest h)).mono
  distinct := (List.pairwise_cons.mp (coherent.distinct_cons pick)).2
  waiting label h hunsettled := by
    obtain ⟨waiting, hmem, hlabel, hcost⟩ := coherent.waiting label h hunsettled
    refine ⟨waiting, ?_, hlabel, hcost⟩
    rcases List.mem_cons.mp (pick.perm.mem_iff.mp hmem) with rfl | hmem
    · rw [hlabel, ← hcost] at stale
      exact absurd stale (UInt64.lt_irrefl _)
    · exact hmem
  cost_origin := coherent.cost_origin
  hops_destination := coherent.hops_destination
  hops_isSome := coherent.hops_isSome
  recorded label hop h := by
    obtain ⟨behind, hmem, hidx, recorded⟩ := coherent.recorded label hop h
    exact ⟨behind, hmem, hidx, recorded.mono⟩
  amount := coherent.amount

/-- The visits left behind by a visit of a label are stale for it. -/
theorem Coherent.settled_pick (coherent : Coherent graph query settled search)
    (pick : Visit.IsPick search.queue visit rest)
    (fresh : ¬ search.costOf (query.labelOf visit) < visit.cost)
    (source : visit.node ≠ query.source) :
    Settled query { search with queue := rest } (query.labelOf visit) := by
  have hcost := coherent.cost_eq pick fresh
  refine ⟨?_, query.layer_layer _, source, ?_, ?_⟩
  · exact hcost ▸ (coherent.queued visit pick.mem).finite
  · intro other h
    exact hcost ▸ pick.least other h
  · intro other h hlabel
    have hne := (List.pairwise_cons.mp (coherent.distinct_cons pick)).1 other h hlabel.symm
    exact hcost ▸ UInt64.lt_of_le_of_ne (pick.least other h) hne

/-- Settling a label keeps the invariant. -/
theorem Coherent.settle (coherent : Coherent graph query settled search)
    (pick : Visit.IsPick search.queue visit rest)
    (fresh : ¬ search.costOf (query.labelOf visit) < visit.cost)
    (source : visit.node ≠ query.source) :
    Coherent graph query (settled ++ [query.labelOf visit]) { search with queue := rest } where
  nodup := by
    refine List.nodup_append.mpr ⟨coherent.nodup, List.nodup_singleton _, ?_⟩
    intro label h other ho
    rw [List.mem_singleton.mp ho]
    exact ne_of_mem_of_not_mem h (coherent.labelOf_not_mem pick fresh)
  isSettled label h := by
    rcases List.mem_append.mp h with h | h
    · exact (coherent.isSettled label h).mono fun _ => pick.mem_of_mem_rest
    · rw [List.mem_singleton.mp h]
      exact coherent.settled_pick pick fresh source
  queued other h := (coherent.queued other (pick.mem_of_mem_rest h)).mono
  distinct := (List.pairwise_cons.mp (coherent.distinct_cons pick)).2
  waiting label h hunsettled := by
    rw [List.mem_append, List.mem_singleton, not_or] at hunsettled
    obtain ⟨waiting, hmem, hlabel, hcost⟩ := coherent.waiting label h hunsettled.1
    refine ⟨waiting, ?_, hlabel, hcost⟩
    rcases List.mem_cons.mp (pick.perm.mem_iff.mp hmem) with rfl | hmem
    · exact absurd hlabel.symm hunsettled.2
    · exact hmem
  cost_origin := coherent.cost_origin
  hops_destination := coherent.hops_destination
  hops_isSome := coherent.hops_isSome
  recorded label hop h := by
    obtain ⟨behind, hmem, hidx, recorded⟩ := coherent.recorded label hop h
    refine ⟨behind, List.mem_append_left _ hmem, ?_, recorded.mono⟩
    rw [List.idxOf_append_of_mem hmem]
    by_cases hl : label ∈ settled
    · rwa [List.idxOf_append_of_mem hl]
    · rw [List.idxOf_append_of_notMem hl]
      exact Nat.lt_add_right _ (List.idxOf_lt_length_of_mem hmem)
  amount := coherent.amount

/-- The visit that has been settled, before any channel is offered in front of it. -/
theorem Coherent.current (coherent : Coherent graph query settled search)
    (pick : Visit.IsPick search.queue visit rest)
    (fresh : ¬ search.costOf (query.labelOf visit) < visit.cost)
    (notFull : query.isFull visit.hops = false) :
    Current query (settled ++ [query.labelOf visit]) { search with queue := rest } visit where
  mem := List.mem_append_right _ (List.mem_singleton_self _)
  notFull := notFull
  cost := coherent.cost_eq pick fresh
  carried := (coherent.queued visit pick.mem).carried (coherent.cost_eq pick fresh).symm
  greatest label h := by
    rcases List.mem_append.mp h with h | h
    · exact (coherent.isSettled label h).le_queue visit pick.mem
    · rw [List.mem_singleton.mp h]
      exact UInt64.le_of_eq (coherent.cost_eq pick fresh)

/-! ## Whole runs -/

/-- The offers that a settled visit makes. -/
theorem Coherent.expand (coherent : Coherent graph query settled search)
    (pick : Visit.IsPick search.queue visit rest)
    (fresh : ¬ search.costOf (query.labelOf visit) < visit.cost)
    (source : visit.node ≠ query.source)
    (notFull : query.isFull visit.hops = false) {edges : List (NodeId × Channel)}
    (perm : edges.Perm (query.edges graph visit.node)) :
    Offered graph query (settled ++ [query.labelOf visit]) { search with queue := rest }
      (edges.foldl (offer query visit (search.costOf (query.labelOf visit)))
        { search with queue := rest }) visit edges := by
  rw [coherent.cost_eq pick fresh]
  exact offered_foldl (coherent.settle pick fresh source) (coherent.current pick fresh notFull)
    fun _ => perm.mem_iff.mp

/-- Every state of a search satisfies the invariant. -/
theorem Explores.coherent (h : Explores graph query settled search) :
    Coherent graph query settled search := by
  induction h with
  | start => exact coherent_start
  | stale _ pick stale ih => exact ih.drop pick stale
  | full _ pick fresh source _ ih => exact ih.settle pick fresh source
  | expand _ pick fresh source notFull perm ih =>
    exact (ih.expand pick fresh source notFull perm).coherent

/-- What settled labels were offered stays offered while they keep their price. -/
theorem Relaxed.mono {before after : Search} (h : Relaxed graph query before label)
    (cost_le : ∀ other, after.costOf other ≤ before.costOf other)
    (cost_eq : after.costOf label = before.costOf label)
    (carried_eq : after.carried query label = before.carried query label) :
    Relaxed graph query after label := by
  intro notFull peer channel edge usable
  rw [cost_eq, carried_eq] at *
  exact UInt64.le_trans (cost_le _) (h notFull peer channel edge usable)

/-- Every settled label has been relaxed. -/
theorem Explores.relaxed (h : Explores graph query settled search) :
    ∀ label ∈ settled, Relaxed graph query search label := by
  induction h with
  | start => simp
  | stale _ _ _ ih => exact ih
  | full _ _ _ _ full ih =>
    intro label h notFull
    rcases List.mem_append.mp h with h | h
    · exact ih label h notFull
    · rw [List.mem_singleton.mp h, Query.labelOf, Query.isFull_layer, full] at notFull
      cases notFull
  | expand h pick fresh source notFull perm ih =>
    have offered := h.coherent.expand pick fresh source notFull perm
    intro label hl
    rcases List.mem_append.mp hl with hl | hl
    · exact (ih label hl).mono offered.cost_le (offered.cost_eq label (List.mem_append_left _ hl))
        (offered.carried_eq label (List.mem_append_left _ hl))
    · rw [List.mem_singleton.mp hl]
      intro _ peer channel edge usable
      rw [offered.current.carried] at usable ⊢
      rw [offered.current.cost]
      exact offered.offered peer channel (perm.mem_iff.mpr edge) usable

end Search

end Rebalancing
