import Rebalancing.Proofs.Path.Optimal

/-!
# The turns of a path search

A search takes one visit after another out of its queue.  In whichever order visits of equal
cost are taken, and the channels in front of a node are tried, the visits come in the order
of their cost, no label is settled twice, and what the tables say of a settled label stays
as it is.  `Search.Orderly` puts these facts together.  None of them asks anything of the
graph, whose index may disagree with its records.
-/

namespace Rebalancing

open Std

namespace Search

variable {graph : Graph} {query : Query} {settled settled' settled'' : List Label}
  {search search' search'' : Search} {visit : Visit} {visits rest : List Visit} {label : Label}
  {peer : NodeId} {hop : Hop}

/-- Whichever visit of least cost is taken, it has its turn, unless it reaches the source. -/
theorem Explores.reaches_or_turn (h : Explores graph query settled search)
    (pick : Visit.IsPick search.queue visit rest) :
    Reaches graph query settled search visit rest ∨
      ∃ settled' search', Turn graph query settled search visit settled' search' := by
  by_cases stale : search.costOf (query.labelOf visit) < visit.cost
  · exact .inr ⟨_, _, .stale pick stale⟩
  by_cases source : visit.node = query.source
  · exact .inl ⟨h, pick, stale, source⟩
  cases full : query.isFull visit.hops with
  | true => exact .inr ⟨_, _, .full pick stale source full⟩
  | false => exact .inr ⟨_, _, .expand pick stale source full (List.Perm.refl _)⟩

/-! ## The order of the visits -/

theorem Turn.mem_queue (turn : Turn graph query settled search visit settled' search') :
    visit ∈ search.queue := by
  cases turn with
  | stale pick | full pick | expand pick => exact pick.mem

/-- Nothing that a turn leaves or puts in the queue is cheaper than the visit it takes out. -/
theorem Turn.le_queue (turn : Turn graph query settled search visit settled' search')
    (coherent : Coherent graph query settled search) :
    ∀ other ∈ search'.queue, visit.cost ≤ other.cost := by
  cases turn with
  | stale pick | full pick => exact pick.least
  | expand pick fresh =>
    rw [coherent.cost_eq pick fresh]
    refine foldl_offer_induction (motive := fun after => ∀ other ∈ after.queue, visit.cost ≤ other.cost)
      pick.least fun after peer channel _ _ kept => ?_
    exact List.forall_mem_cons.mpr ⟨UInt64.le_satAdd _ _, kept⟩

/-- What no visit in the queue is cheaper than, no visit taken out later is, nor any left then. -/
theorem Turns.le_of_le_queue (turns : Turns graph query settled search visits settled' search')
    (explores : Explores graph query settled search) {cost : UInt64}
    (le : ∀ other ∈ search.queue, cost ≤ other.cost) :
    (∀ visit ∈ visits, cost ≤ visit.cost) ∧ ∀ other ∈ search'.queue, cost ≤ other.cost := by
  induction turns with
  | none => exact ⟨List.forall_mem_nil _, le⟩
  | more turn _ ih =>
    have hvisit := le _ turn.mem_queue
    obtain ⟨hvisits, hqueue⟩ := ih (explores.turn turn) fun other mem =>
      UInt64.le_trans hvisit (turn.le_queue explores.coherent other mem)
    exact ⟨List.forall_mem_cons.mpr ⟨hvisit, hvisits⟩, hqueue⟩

/-- The visits are taken out in the order of their cost. -/
theorem Turns.ascending (turns : Turns graph query settled search visits settled' search')
    (explores : Explores graph query settled search) :
    (visits.Pairwise fun visit next => visit.cost ≤ next.cost) ∧
      ∀ visit ∈ visits, ∀ other ∈ search'.queue, visit.cost ≤ other.cost := by
  induction turns with
  | none => exact ⟨List.Pairwise.nil, List.forall_mem_nil _⟩
  | more turn turns ih =>
    obtain ⟨pairwise, below⟩ := ih (explores.turn turn)
    obtain ⟨hvisits, hqueue⟩ :=
      turns.le_of_le_queue (explores.turn turn) (turn.le_queue explores.coherent)
    exact ⟨List.pairwise_cons.mpr ⟨hvisits, pairwise⟩, List.forall_mem_cons.mpr ⟨hqueue, below⟩⟩

/-- There are fewer turns than the measure of a search admits. -/
theorem Turns.length_add_potential_le
    (turns : Turns graph query settled search visits settled' search')
    (explores : Explores graph query settled search) :
    visits.length + potential (labels graph query) search' ≤
      potential (labels graph query) search := by
  induction turns with
  | none => exact (Nat.zero_add _).le
  | more turn _ ih =>
    have lower := turn.potential_lt explores.coherent
    have le := ih (explores.turn turn)
    rw [List.length_cons]
    omega

/-! ## Settled labels -/

/-- The tables say the same of a label. -/
structure Keeps (before after : Search) (label : Label) : Prop where
  cost : after.costOf label = before.costOf label
  hop : after.hops[label]? = before.hops[label]?

theorem Keeps.refl : Keeps search search label := ⟨rfl, rfl⟩

theorem Keeps.trans (h : Keeps search search' label) (h' : Keeps search' search'' label) :
    Keeps search search'' label :=
  ⟨h'.cost.trans h.cost, h'.hop.trans h.hop⟩

/-- A label is left alone by a visit that costs no less. -/
theorem keeps_foldl_offer {edges : List (NodeId × Channel)}
    (le : search.costOf label ≤ visit.cost) :
    Keeps search (edges.foldl (offer query visit visit.cost) search) label := by
  refine foldl_offer_induction (motive := (Keeps search · label)) .refl
    fun after peer channel _ better kept => kept.trans ?_
  have hne : label ≠ query.before peer (query.labelOf visit) := by
    rintro rfl
    rw [kept.cost] at better
    exact UInt64.not_lt.mpr le (UInt64.lt_of_le_of_lt (UInt64.le_satAdd _ _) better)
  exact ⟨by rw [costOf_improve, if_neg hne], by rw [getElem?_hops_improve, if_neg hne]⟩

/-- A turn leaves alone what has been settled before, and also what it settles itself. -/
theorem Turn.keeps (turn : Turn graph query settled search visit settled' search')
    (coherent : Coherent graph query settled search) :
    ∀ label ∈ settled', Keeps search search' label := by
  cases turn with
  | stale | full => exact fun _ _ => ⟨rfl, rfl⟩
  | expand pick fresh source notFull perm =>
    intro label mem
    have le := (coherent.current pick fresh notFull).greatest label mem
    rw [coherent.cost_eq pick fresh]
    obtain ⟨cost, hop⟩ := keeps_foldl_offer le
    exact ⟨cost, hop⟩

/-- What a turn settles is the label of the visit that it takes out. -/
theorem Turn.eq_append (turn : Turn graph query settled search visit settled' search') :
    ∃ new, settled' = settled ++ new ∧ new.Sublist [query.labelOf visit] := by
  cases turn with
  | stale => exact ⟨[], (List.append_nil _).symm, List.nil_sublist _⟩
  | full | expand => exact ⟨_, rfl, List.Sublist.refl _⟩

/-- No label is taken back, and labels are settled in the order of their visits. -/
theorem Turns.eq_append (turns : Turns graph query settled search visits settled' search') :
    ∃ new, settled' = settled ++ new ∧ new.Sublist (visits.map query.labelOf) := by
  induction turns with
  | none => exact ⟨[], (List.append_nil _).symm, List.nil_sublist _⟩
  | more turn _ ih =>
    obtain ⟨new, rfl, one⟩ := turn.eq_append
    obtain ⟨news, rfl, all⟩ := ih
    exact ⟨new ++ news, List.append_assoc _ _ _, one.append all⟩

/-- What is settled stays as it is, however many turns follow. -/
theorem Turns.keeps (turns : Turns graph query settled search visits settled' search')
    (explores : Explores graph query settled search) :
    ∀ label ∈ settled, Keeps search search' label := by
  induction turns with
  | none => exact fun _ _ => .refl
  | more turn _ ih =>
    intro label mem
    obtain ⟨new, rfl, -⟩ := turn.eq_append
    have mem' := List.mem_append_left new mem
    exact (turn.keeps explores.coherent label mem').trans (ih (explores.turn turn) label mem')

/-! ## Layers -/

/-- The labels that a search knows of: those with an entry in a table, and those of visits. -/
def Knows (query : Query) (search : Search) (label : Label) : Prop :=
  label ∈ search.costs ∨ label ∈ search.hops ∨ ∃ visit ∈ search.queue, query.labelOf visit = label

/-- No label that is known is in a layer above the hop limit. -/
def IsLayered (query : Query) (search : Search) : Prop :=
  ∀ label, Knows query search label → label.layer ≤ query.maxHops

theorem mem_insert_iff {V : Type} {table : ExtTreeMap Label V} {other : Label} {value : V} :
    other ∈ table.insert label value ↔ label = other ∨ other ∈ table := by
  rw [ExtTreeMap.mem_insert, LawfulEqCmp.compare_eq_iff_eq]

/-- A search starts out with one label. -/
theorem eq_origin_of_knows_start (knows : Knows query (start query) label) :
    label = query.origin := by
  obtain mem | mem | ⟨visit, mem, rfl⟩ := knows
  · rw [start, mem_insert_iff] at mem
    exact (mem.resolve_right ExtTreeMap.not_mem_empty).symm
  · exact absurd mem ExtTreeMap.not_mem_empty
  · rw [start, List.mem_singleton] at mem
    subst mem
    simp [Query.labelOf, Query.origin, Query.layer]

/-- An offer adds the label that it is made for. -/
theorem eq_or_knows_of_improve {other : Label} {next : Visit} (labelled : query.labelOf next = label)
    (knows : Knows query (search.improve label hop next) other) :
    label = other ∨ Knows query search other := by
  obtain mem | mem | ⟨queued, mem, rfl⟩ := knows
  · exact (mem_insert_iff.mp mem).imp_right .inl
  · exact (mem_insert_iff.mp mem).imp_right fun mem => .inr (.inl mem)
  · obtain rfl | mem := List.mem_cons.mp mem
    · exact .inl labelled.symm
    · exact .inr (.inr (.inr ⟨queued, mem, rfl⟩))

theorem isLayered_start : IsLayered query (start query) := by
  intro label knows
  rw [eq_origin_of_knows_start knows]
  exact Nat.zero_le _

/-- Taking a visit out makes no label known. -/
theorem IsLayered.pick (h : IsLayered query search) (pick : Visit.IsPick search.queue visit rest) :
    IsLayered query { search with queue := rest } := by
  rintro label (mem | mem | ⟨other, queued, hlabel⟩)
  · exact h label (.inl mem)
  · exact h label (.inr (.inl mem))
  · exact h label (.inr (.inr ⟨other, pick.mem_of_mem_rest queued, hlabel⟩))

/-- No turn leads above the hop limit. -/
theorem Turn.isLayered (turn : Turn graph query settled search visit settled' search')
    (coherent : Coherent graph query settled search) (h : IsLayered query search) :
    IsLayered query search' := by
  cases turn with
  | stale pick | full pick => exact h.pick pick
  | expand pick fresh _ notFull =>
    rw [coherent.cost_eq pick fresh]
    refine foldl_offer_induction (h.pick pick) fun after peer channel _ _ kept => ?_
    intro label knows
    obtain rfl | knows := eq_or_knows_of_improve labelOf_extend knows
    · rw [query.before_labelOf]
      exact Query.layer_le_of_not_full notFull
    · exact kept label knows

theorem Turns.isLayered (turns : Turns graph query settled search visits settled' search')
    (explores : Explores graph query settled search) (h : IsLayered query search) :
    IsLayered query search' := by
  induction turns with
  | none => exact h
  | more turn _ ih => exact ih (explores.turn turn) (turn.isLayered explores.coherent h)

/-! ## All turns from the start -/

/-- What is promised of the turns of a search from its start on. -/
structure Orderly (graph : Graph) (query : Query) (visits : List Visit) (settled : List Label)
    (search : Search) : Prop where
  ascending : visits.Pairwise fun visit next => visit.cost ≤ next.cost
  /-- The visits still to come cost no less either. -/
  below : ∀ visit ∈ visits, ∀ other ∈ search.queue, visit.cost ≤ other.cost
  once : settled.Nodup
  /-- Labels are settled by visits, in their order. -/
  visited : settled.Sublist (visits.map query.labelOf)
  layered : IsLayered query search
  bounded : visits.length < fuel graph query
  /-- Any visit of least cost may come next, unless it reaches the source. -/
  goesOn : ∀ visit rest, Visit.IsPick search.queue visit rest →
    Reaches graph query settled search visit rest ∨
      ∃ settled' search', Turn graph query settled search visit settled' search'
  /-- What a turn settles stays as it was before that turn, like what was settled already. -/
  final : ∀ visit settled' search', Turn graph query settled search visit settled' search' →
    ∀ visits settled'' search'', Turns graph query settled' search' visits settled'' search'' →
      ∀ label ∈ settled', Keeps search search'' label

theorem Turns.orderly (turns : Turns graph query [] (start query) visits settled search) :
    Orderly graph query visits settled search := by
  have explores : Explores graph query settled search := Explores.start.turns turns
  obtain ⟨ascending, below⟩ := turns.ascending .start
  obtain ⟨_, rfl, visited⟩ := turns.eq_append
  refine { ascending, below, once := explores.coherent.nodup, visited
           layered := turns.isLayered .start isLayered_start, bounded := ?bounded
           goesOn := fun _ _ => explores.reaches_or_turn, final := ?final }
  case bounded =>
    have le := turns.length_add_potential_le .start
    have lt : potential (labels graph query) (start query) < fuel graph query := potential_start_lt
    omega
  case final =>
    intro visit settled' search' turn visits settled'' search'' turns label mem
    exact (turn.keeps explores.coherent label mem).trans
      (turns.keeps (explores.turn turn) label mem)

/-- **Order.**  In any graph, whatever turns a search takes are orderly.  The turns of `Search.run` end
with an empty queue, or at the source; a path is read off by a walk of no more hops than the table
has; and the answer is a path, or that there is none. -/
theorem search_orderly (graph : Graph) (query : Query) :
    (∀ visits settled search, Turns graph query [] (start query) visits settled search →
      Orderly graph query visits settled search) ∧
    (∃ visits settled search, Turns graph query [] (start query) visits settled search ∧
      ((search.queue = [] ∧ run graph query (fuel graph query) (start query) = none) ∨
        ∃ visit rest, Reaches graph query settled search visit rest ∧
          run graph query (fuel graph query) (start query) =
            some (search.arrival query visit rest))) ∧
    (∀ arrival : Arrival, ∃ walked last,
      Walks query arrival.search.hops ⟨query.source, arrival.layer⟩ walked last ∧
      walked.length ≤ arrival.search.hops.size ∧
      ((last.node = query.destination ∧ arrival.path? query = some (walked.map Prod.snd)) ∨
        (last.node ≠ query.destination ∧ arrival.path? query = none ∧
          ∀ walked last, Walks query arrival.search.hops ⟨query.source, arrival.layer⟩ walked last →
            last.node ≠ query.destination))) ∧
    (query.source ≠ query.destination → query.amount ≠ 0 →
      (∃ hops, graph.findPath query = .ok hops) ∨
        graph.findPath query = .error (.noRoute query.source query.destination)) := by
  refine ⟨fun _ _ _ => Turns.orderly, Explores.start.exists_turns potential_start_lt,
    Arrival.path?_cases query, ?_⟩
  intro ends positive
  obtain ⟨_, _, -, -, none⟩ | ⟨_, search, visit, rest, -, found⟩ :=
    graph.findPath_ends ends (UInt64.pos_iff_ne_zero.mpr positive)
  · exact .inr none
  · rw [found]
    cases (search.arrival query visit rest).path? query with
    | none => exact .inr rfl
    | some hops => exact .inl ⟨hops, rfl⟩

/-! ### A graph that contradicts itself -/

/-- The channel from `A` to `D` is recorded anew as one to `B`, but the index still knows it as leading
to `D`. -/
def tangled : Graph := Graph.empty.addAll
  [Graph.diamondChannel 1 "A" "D" 0, Graph.diamondChannel 1 "A" "B" 0,
    Graph.diamondChannel 2 "B" "A" 0, Graph.diamondChannel 3 "S" "A" 0]

def tangledQuery : Query where
  source := ⟨"S"⟩
  destination := ⟨"D"⟩
  amount := 1000000
  maxHops := 0

/-- The source is reached, but the hops recorded lead from `A` to `B` and back: there is no walk to the
destination, and none is found. -/
theorem search_orderly_tangled : ∃ arrival : Arrival,
    run tangled tangledQuery (fuel tangled tangledQuery) (start tangledQuery) = some arrival ∧
    ∀ walked last, Walks tangledQuery arrival.search.hops ⟨⟨"S"⟩, arrival.layer⟩ walked last →
      last.node ≠ ⟨"D"⟩ := by
  have reached : (run tangled tangledQuery (fuel tangled tangledQuery)
      (start tangledQuery)).isSome := by
    decide +kernel
  have lost : ((run tangled tangledQuery (fuel tangled tangledQuery) (start tangledQuery)).bind
      (Arrival.path? tangledQuery)).isNone := by
    decide +kernel
  obtain ⟨arrival, hrun⟩ := Option.isSome_iff_exists.mp reached
  refine ⟨arrival, hrun, ?_⟩
  obtain ⟨_, _, -, -, ⟨-, found⟩ | ⟨-, -, none⟩⟩ :=
    (search_orderly tangled tangledQuery).2.2.1 arrival
  · rw [hrun, Option.bind_some, found] at lost
    cases lost
  · exact none

end Search

end Rebalancing
