import Rebalancing.Proofs.Path.Optimal

/-!
# Soundness of the path search

Whatever path a search of an indexed graph finds is one that a payment may take:
`Query.IsPath` lists what that means.  Most of it is said of a way already.  What is left
is which nodes the path comes by, and that is read off the order in which labels were
settled: the table leads from a label to one that was settled before it, the source is
never settled, and the destination is never put in front of another node.
-/

namespace Rebalancing

open Std

/-- One hop leads to the next, and carries what has to enter it. -/
structure Hop.Precedes (hop next : Hop) : Prop where
  meets : hop.channel.destination = next.channel.source
  amount : hop.amount = next.amount.satAdd (next.channel.fee next.amount)
  delay : hop.delay = next.delay.satAdd next.channel.delay

namespace Query

variable {query : Query} {graph : Graph} {node : NodeId} {channels : List Channel}

/-- The nodes that hops from the source of a query come by, both ends included. -/
def visited (query : Query) (hops : List Hop) : List NodeId :=
  query.source :: hops.map (·.channel.destination)

/-- What is promised of the hops that a search answers with. -/
structure IsPath (query : Query) (graph : Graph) (hops : List Hop) : Prop where
  starts : ∃ first, hops.head? = some first ∧ first.channel.source = query.source
  ends : ∃ last, hops.getLast? = some last ∧ last.channel.destination = query.destination ∧
    last.amount = query.amount ∧ last.delay = 0
  precedes : hops.IsChain Hop.Precedes
  /-- The graph stores the channel of each hop, and under its own id if it keeps its records so. -/
  stored : ∀ hop ∈ hops, graph.Stores hop.channel ∧
    (graph.IsKeyed → graph.channel? hop.channel.id = some hop.channel)
  usable : ∀ hop ∈ hops, hop.channel.canUse hop.amount
  permitted : ∀ hop ∈ hops, hop.channel.source ∉ query.excluded
  source_once : ∀ hop ∈ hops, hop.channel.destination ≠ query.source
  destination_once : ∀ hop ∈ hops, hop.channel.source ≠ query.destination
  within : query.maxHops ≠ 0 → hops.length ≤ query.maxHops
  simple : query.maxHops = 0 → (query.visited hops).Nodup

/-! ## The hops of a way -/

theorem channel_mem_of_mem_hopsOver {hop : Hop} (mem : hop ∈ query.hopsOver channels) :
    hop.channel ∈ channels := by
  have mapped := List.mem_map_of_mem (f := fun hop : Hop => hop.channel) mem
  rwa [map_channel_hopsOver] at mapped

/-- Hops that connect two nodes carry, one by one, what has to enter the next. -/
theorem isChain_hopsOver (connects : Route.connects query.destination node (query.hopsOver channels)) :
    (query.hopsOver channels).IsChain Hop.Precedes := by
  induction channels generalizing node with
  | nil => exact List.isChain_nil
  | cons channel rest ih =>
    simp only [hopsOver_cons, Route.connects, Bool.and_eq_true, decide_eq_true_eq] at connects
    have chain := ih connects.2
    cases rest with
    | nil => exact List.isChain_singleton _
    | cons next rest =>
      refine List.isChain_cons_cons.mpr ⟨⟨?_, rfl, rfl⟩, chain⟩
      have meets := connects.2
      simp only [hopsOver_cons, Route.connects, Bool.and_eq_true, decide_eq_true_eq] at meets
      exact meets.1.symm

/-- The last hop of a way delivers the amount at the destination, without delay. -/
theorem getLast?_hopsOver (connects : Route.connects query.destination node (query.hopsOver channels))
    (nonempty : channels ≠ []) : ∃ last, (query.hopsOver channels).getLast? = some last ∧
      last.channel.destination = query.destination ∧ last.amount = query.amount ∧
        last.delay = 0 := by
  induction channels generalizing node with
  | nil => exact absurd rfl nonempty
  | cons channel rest ih =>
    simp only [hopsOver_cons, Route.connects, Bool.and_eq_true, decide_eq_true_eq] at connects
    cases rest with
    | nil =>
      refine ⟨⟨channel, query.amount, 0⟩, rfl, ?_, rfl, rfl⟩
      simpa [Route.connects] using connects.2
    | cons next rest =>
      obtain ⟨last, hlast, h⟩ := ih connects.2 (List.cons_ne_nil _ _)
      refine ⟨last, ?_, h⟩
      rw [hopsOver_cons, hopsOver_cons, List.getLast?_cons_cons, ← hopsOver_cons]
      exact hlast

/-- A way from elsewhere starts with a channel of the node. -/
theorem IsWay.head? (way : query.IsWay graph node channels) (ends : node ≠ query.destination) :
    ∃ first, (query.hopsOver channels).head? = some first ∧ first.channel.source = node := by
  have connects := way.connects
  cases channels with
  | nil => exact absurd (by simpa [Route.connects] using connects) ends
  | cons channel rest =>
    simp only [hopsOver_cons, Route.connects, Bool.and_eq_true, decide_eq_true_eq] at connects
    exact ⟨_, rfl, connects.1⟩

end Query

/-- A graph that keeps its records under their own ids stores a channel under that. -/
theorem Graph.IsKeyed.channel?_id {graph : Graph} (keyed : graph.IsKeyed) {channel : Channel}
    (stored : graph.Stores channel) : graph.channel? channel.id = some channel := by
  obtain ⟨scid, stored⟩ := stored
  rw [keyed _ _ stored]
  exact stored

namespace Search

variable {graph : Graph} {query : Query} {settled : List Label} {search : Search}
  {visit : Visit} {rest : List Visit} {label : Label} {steps : Nat} {hop : Hop} {hops : List Hop}

/-! ## The nodes on a path -/

/-- The table leads from a label to one that was settled before it. -/
theorem Coherent.trace_cons (coherent : Coherent graph query settled search)
    (indexed : graph.IsIndexed) (h : trace query search.hops steps label = some (hop :: hops)) :
    label.node ≠ query.destination ∧ hop.channel.source = label.node ∧
      ∃ behind ∈ settled, behind.node = hop.channel.destination ∧
        settled.idxOf behind < settled.idxOf label ∧
          ∃ steps, trace query search.hops steps behind = some hops := by
  obtain ⟨hnode, found, steps, htrace⟩ := trace_eq_cons h
  obtain ⟨behind, mem, hidx, recorded⟩ := coherent.recorded label hop found
  have hbehind := recorded.next_eq indexed (coherent.isSettled behind mem).layer
  obtain ⟨-, hsource, hdestination, -⟩ := (Query.mem_edges_iff indexed).mp recorded.edge
  rw [hbehind] at htrace
  exact ⟨hnode, hsource, behind, mem, hdestination.symm, hidx, steps, htrace⟩

/-- Every hop that the table leads over ends at a label that was settled before the first one. -/
theorem Coherent.exists_behind (coherent : Coherent graph query settled search)
    (indexed : graph.IsIndexed) (h : trace query search.hops steps label = some hops)
    (mem : hop ∈ hops) : hop.channel.source ≠ query.destination ∧
      ∃ behind ∈ settled, behind.node = hop.channel.destination ∧
        settled.idxOf behind < settled.idxOf label := by
  induction hops generalizing steps label with
  | nil => cases mem
  | cons first hops ih =>
    obtain ⟨hnode, hsource, behind, hbehind, hdestination, hidx, steps, htrace⟩ :=
      coherent.trace_cons indexed h
    rcases List.mem_cons.mp mem with rfl | mem
    · exact ⟨hsource ▸ hnode, behind, hbehind, hdestination, hidx⟩
    · obtain ⟨hne, further, hfurther, hnode, hlt⟩ := ih htrace mem
      exact ⟨hne, further, hfurther, hnode, Nat.lt_trans hlt hidx⟩

/-- Without a hop limit there is one label for each node, so that the path comes by none twice. -/
theorem Coherent.nodup_trace (coherent : Coherent graph query settled search)
    (indexed : graph.IsIndexed) (unlimited : query.maxHops = 0) (layer : label.layer = 0)
    (h : trace query search.hops steps label = some hops) :
    (label.node :: hops.map (·.channel.destination)).Nodup := by
  have lowest : ∀ behind ∈ settled, behind.layer = 0 := by
    intro behind mem
    rw [← (coherent.isSettled behind mem).layer, Query.layer, if_pos unlimited]
  induction hops generalizing steps label with
  | nil => exact List.nodup_singleton _
  | cons first hops ih =>
    obtain ⟨-, -, behind, hbehind, hdestination, -, steps', htrace⟩ :=
      coherent.trace_cons indexed h
    rw [List.map_cons, ← hdestination]
    refine List.nodup_cons.mpr ⟨?_, ih (lowest behind hbehind) htrace⟩
    intro mem
    obtain ⟨hop, hmem, hnode⟩ : ∃ hop ∈ first :: hops, hop.channel.destination = label.node := by
      rw [hdestination, ← List.map_cons (f := fun hop : Hop => hop.channel.destination)] at mem
      exact List.mem_map.mp mem
    obtain ⟨-, again, hagain, hsame, hlt⟩ := coherent.exists_behind indexed h hmem
    -- A label of this node would be the label itself, settled before itself.
    have heq : again = label := by
      obtain ⟨node, layer'⟩ := again
      obtain ⟨node', layer''⟩ := label
      have := lowest _ hagain
      simp_all
    exact absurd (heq ▸ hlt) (Nat.lt_irrefl _)

/-- A search that reaches the source in an indexed graph has found a path. -/
theorem Reaches.exists_isPath (h : Reaches graph query settled search visit rest)
    (indexed : graph.IsIndexed) (ends : query.source ≠ query.destination) :
    ∃ hops, (search.arrival query visit rest).path? query = some hops ∧
      query.IsPath graph hops := by
  have coherent := h.explores.coherent
  obtain ⟨channels, way, -, hpath⟩ := h.exists_way indexed
  have nonempty : channels ≠ [] := by
    rintro rfl
    exact ends (by simpa [Route.connects] using way.connects)
  have behind := fun hop (mem : hop ∈ query.hopsOver channels) =>
    coherent.exists_behind indexed hpath mem
  refine ⟨_, hpath, ?_⟩
  refine { starts := way.head? ends, ends := Query.getLast?_hopsOver way.connects nonempty,
           precedes := Query.isChain_hopsOver way.connects, stored := ?stored,
           usable := way.usable, permitted := ?permitted, source_once := ?source_once,
           destination_once := fun hop mem => (behind hop mem).1, within := ?within,
           simple := ?simple }
  case stored =>
    intro hop mem
    have stored := way.stored _ (Query.channel_mem_of_mem_hopsOver mem)
    exact ⟨stored, fun keyed => keyed.channel?_id stored⟩
  case permitted =>
    exact fun hop mem => way.permitted _ (Query.channel_mem_of_mem_hopsOver mem)
  case source_once =>
    intro hop mem
    obtain ⟨-, label, hlabel, hnode, -⟩ := behind hop mem
    exact hnode ▸ (coherent.isSettled label hlabel).ne_source
  case within =>
    intro limited
    rw [Query.length_hopsOver]
    exact way.within.resolve_left limited
  case simple =>
    intro unlimited
    refine coherent.nodup_trace indexed unlimited ?_ hpath
    show query.layer visit.hops = 0
    rw [Query.layer, if_pos unlimited]

end Search

namespace Graph

variable {graph : Graph} {query : Query} {hops : List Hop}

theorem ends_of_findPath_eq_ok (found : graph.findPath query = .ok hops) :
    query.source ≠ query.destination ∧ 0 < query.amount := by
  unfold findPath at found
  split_ifs at found with hends hamount
  exact ⟨hends, UInt64.pos_iff_ne_zero.mpr hamount⟩

/-- A path that is found was read off where the search arrived. -/
theorem exists_arrival_of_findPath_eq_ok (found : graph.findPath query = .ok hops) :
    query.source ≠ query.destination ∧
      ∃ settled search visit rest, Search.Reaches graph query settled search visit rest ∧
        Search.run graph query (Search.fuel graph query) (Search.start query) =
          some (search.arrival query visit rest) ∧
        (search.arrival query visit rest).path? query = some hops := by
  refine ⟨(ends_of_findPath_eq_ok found).1, ?_⟩
  unfold findPath at found
  split_ifs at found
  obtain ⟨_, _, -, -, hrun⟩ | ⟨settled, search, visit, rest, reaches, hrun⟩ :=
    Search.Explores.start.exists_end Search.potential_start_lt
  · rw [hrun] at found
    cases found
  · refine ⟨settled, search, visit, rest, reaches, hrun, ?_⟩
    rw [hrun] at found
    simp only [Option.bind_some] at found
    cases hpath : (search.arrival query visit rest).path? query with
    | none => simp [hpath] at found
    | some path =>
      simp only [hpath, Except.ok.injEq] at found
      rw [found]

/-- **Soundness.**  Whatever the path search answers in an indexed graph is a path of the query: it
connects the two ends over stored channels that can bear what they carry, each carrying what has to
enter the next, within the limits of the query.  So is what any other order among visits of equal
cost arrives with. -/
theorem findPath_isPath (indexed : graph.IsIndexed) (query : Query) :
    (∀ hops, graph.findPath query = .ok hops → query.IsPath graph hops) ∧
    ∀ settled search visit rest, query.source ≠ query.destination →
      Search.Reaches graph query settled search visit rest →
        ∃ hops, (search.arrival query visit rest).path? query = some hops ∧
          query.IsPath graph hops := by
  refine ⟨?_, fun _ _ _ _ ends reaches => reaches.exists_isPath indexed ends⟩
  intro hops found
  obtain ⟨ends, positive⟩ := ends_of_findPath_eq_ok found
  obtain ⟨_, _, -, -, hnone⟩ | ⟨settled, search, visit, rest, reaches, hfound⟩ :=
    findPath_ends graph ends positive
  · rw [hnone] at found
    cases found
  · obtain ⟨path, hpath, isPath⟩ := reaches.exists_isPath indexed ends
    rw [hfound, hpath] at found
    cases found
    exact isPath

/-- The cheapest path through the diamond without a hop limit is a path. -/
theorem findPath_diamond_isPath :
    diamond.findPath { diamondQuery with maxHops := 0 } = .ok (diamondQuery.hopsOver
      [diamondChannel 3 "A" "C" 100, diamondChannel 7 "C" "D" 2000]) ∧
    Query.IsPath { diamondQuery with maxHops := 0 } diamond (diamondQuery.hopsOver
      [diamondChannel 3 "A" "C" 100, diamondChannel 7 "C" "D" 2000]) := by
  have found : diamond.findPath { diamondQuery with maxHops := 0 } = .ok (diamondQuery.hopsOver
      [diamondChannel 3 "A" "C" 100, diamondChannel 7 "C" "D" 2000]) := by decide +kernel
  exact ⟨found, (findPath_isPath diamond_isIndexed _).1 _ found⟩

end Graph

end Rebalancing
