import Rebalancing.Proofs.Path.Sound

/-!
# Loops of a path

Without a hop limit a path comes by no node twice.  With a limit a node has one label for
each number of hops, and the table may lead from one of them to another: the path has a
loop.  To leave the loop out saves its fees and its hops, so that a search prefers the
loop in two cases only.  Either it is free, and of several visits of equal cost the one
behind it was settled first.  Or a channel in front wants to carry more than some way from
its end asks for, a way no longer than what is left of the path without the loop; then it
is for its fees that the loop is there.
-/

namespace Rebalancing

open Std

/-! ## Hops that lead back -/

/-- Hops that lead from some node back to it. -/
def Hop.IsLoop (hops : List Hop) : Prop :=
  hops ≠ [] ∧ ∃ node, Route.connects node node hops

@[simp] theorem Hop.feeSum_append (front back : List Hop) :
    Hop.feeSum (front ++ back) = Hop.feeSum front + Hop.feeSum back := by
  induction front with
  | nil => simp
  | cons hop rest ih => simp [ih, Nat.add_assoc]

namespace Route

variable {node node' destination destination' : NodeId} {hops : List Hop}

/-- Hops connect one pair of nodes only. -/
theorem connects_unique (h : connects destination node hops)
    (h' : connects destination' node' hops) (nonempty : hops ≠ []) :
    node = node' ∧ destination = destination' := by
  induction hops generalizing node node' with
  | nil => exact absurd rfl nonempty
  | cons hop rest ih =>
    simp only [connects, Bool.and_eq_true, decide_eq_true_eq] at h h'
    refine ⟨h.1.symm.trans h'.1, ?_⟩
    cases rest with
    | nil =>
      simp only [connects, decide_eq_true_eq] at h h'
      exact h.2.symm.trans h'.2
    | cons next rest => exact (ih h.2 h'.2 (List.cons_ne_nil _ _)).2

/-- The node where connected hops end is one that they come by. -/
theorem mem_visited_of_connects (h : connects destination node hops) :
    destination ∈ node :: hops.map (·.channel.destination) := by
  induction hops generalizing node with
  | nil =>
    simp only [connects, decide_eq_true_eq] at h
    simp [h]
  | cons hop rest ih =>
    simp only [connects, Bool.and_eq_true] at h
    exact List.mem_cons_of_mem _ (ih h.2)

/-- Hops that come back to the node where they start begin with a loop. -/
theorem exists_isLoop_of_mem (h : connects destination node hops)
    (mem : node ∈ hops.map (·.channel.destination)) :
    ∃ loop back, hops = loop ++ back ∧ Hop.IsLoop loop := by
  obtain ⟨hop, mem, hnode⟩ := List.mem_map.mp mem
  obtain ⟨front, back, rfl⟩ := List.append_of_mem mem
  rw [← List.singleton_append, ← List.append_assoc, connects_append] at h
  obtain ⟨_, hloop, -⟩ := h
  refine ⟨front ++ [hop], back, by simp, by simp, node, ?_⟩
  obtain ⟨middle, hfront, hlast⟩ := connects_append.mp hloop
  simp only [connects, Bool.and_eq_true, decide_eq_true_eq] at hlast
  refine connects_append.mpr ⟨middle, hfront, ?_⟩
  simp [connects, hlast.1, hnode]

/-- Connected hops come by no node twice exactly if they have no loop. -/
theorem nodup_visited_iff (h : connects destination node hops) :
    (node :: hops.map (·.channel.destination)).Nodup ↔
      ∀ front loop back, hops = front ++ loop ++ back → ¬ Hop.IsLoop loop := by
  constructor
  · rintro nodup front loop back rfl ⟨nonempty, at', hloop⟩
    obtain ⟨_, hfront, -⟩ := connects_append.mp h
    obtain ⟨start, hfront, hmiddle⟩ := connects_append.mp hfront
    obtain ⟨rfl, rfl⟩ := connects_unique hmiddle hloop nonempty
    rw [List.map_append, List.map_append, ← List.cons_append, ← List.cons_append] at nodup
    have disjoint := (List.nodup_append.mp (List.nodup_append.mp nodup).1).2.2
    -- The loop starts where the front ends, and ends there again.
    refine disjoint _ (mem_visited_of_connects hfront) _ ?_ rfl
    cases loop with
    | nil => exact absurd rfl nonempty
    | cons hop rest =>
      simp only [connects, Bool.and_eq_true] at hloop
      exact mem_visited_of_connects hloop.2
  · intro simple
    induction hops generalizing node with
    | nil => exact List.nodup_singleton _
    | cons hop rest ih =>
      refine List.nodup_cons.mpr ⟨?_, ?_⟩
      · intro mem
        obtain ⟨loop, back, heq, hloop⟩ := exists_isLoop_of_mem h mem
        exact simple [] loop back heq hloop
      · simp only [connects, Bool.and_eq_true] at h
        refine ih h.2 fun front loop back heq => ?_
        exact simple (hop :: front) loop back (by rw [heq]; rfl)

end Route

namespace Query

variable {query : Query} {graph : Graph} {node : NodeId} {channel : Channel}
  {channels rest cheaper : List Channel}

/-- One of the channels in `front` accepts no amount as low as some way from its end asks for, though
that way is no longer than the channels after it in `front` and `behind` others. -/
def RefusesLess (query : Query) (graph : Graph) (front : List Channel) (behind : Nat) : Prop :=
  ∃ first channel rest cheaper, front = first ++ channel :: rest ∧
    query.IsWay graph channel.destination cheaper ∧
    (query.maxHops = 0 ∨ cheaper.length ≤ rest.length + behind) ∧
    (query.carried cheaper).1 < channel.minHtlc

/-- No node twice, and no channel. -/
structure IsSimple (query : Query) (hops : List Hop) : Prop where
  nodes : (query.visited hops).Nodup
  channels : (hops.map (·.channel)).Nodup

/-- What is promised of the nodes that the hops of an answer come by. -/
structure IsDirect (query : Query) (graph : Graph) (hops : List Hop) : Prop where
  source_once : ∀ hop ∈ hops, hop.channel.destination ≠ query.source
  destination_once : ∀ hop ∈ hops, hop.channel.source ≠ query.destination
  unlimited : query.maxHops = 0 → query.IsSimple hops
  /-- With a hop limit a loop is free, or it is there for its fees. -/
  loops : ∀ front loop back, hops = front ++ loop ++ back → Hop.IsLoop loop →
    Hop.feeSum loop = 0 ∨ query.RefusesLess graph (front.map (·.channel)) back.length
  charging : (∀ channel, graph.Stores channel →
    channel.minHtlc ≤ query.amount ∧ 0 < channel.fee query.amount) → query.IsSimple hops

theorem RefusesLess.cons {front : List Channel} {behind : Nat}
    (h : query.RefusesLess graph front behind) :
    query.RefusesLess graph (channel :: front) behind := by
  obtain ⟨first, at', rest, cheaper, rfl, h⟩ := h
  exact ⟨channel :: first, at', rest, cheaper, rfl, h⟩

/-- Only a channel that does not accept the amount asked for refuses less. -/
theorem RefusesLess.exists_lt_minHtlc {front : List Channel} {behind : Nat}
    (h : query.RefusesLess graph front behind) :
    ∃ channel ∈ front, query.amount < channel.minHtlc := by
  obtain ⟨first, channel, rest, cheaper, rfl, -, -, least⟩ := h
  refine ⟨channel, List.mem_append_right _ List.mem_cons_self, ?_⟩
  exact UInt64.lt_of_le_of_lt amount_le_carried least

/-- Hops that come by no node twice go over no channel twice. -/
theorem isSimple_of_nodup {hops : List Hop} (nodup : (query.visited hops).Nodup) :
    query.IsSimple hops where
  nodes := nodup
  channels := by
    have nodup := (List.nodup_cons.mp nodup).2
    rw [show hops.map (·.channel.destination) = (hops.map (·.channel)).map (·.destination) by simp]
      at nodup
    exact nodup.of_map _

/-! ## Leaving channels out -/

/-- A cheaper way asks for no more. -/
theorem carried_le_carried
    (h : Hop.feeSum (query.hopsOver cheaper) ≤ Hop.feeSum (query.hopsOver channels)) :
    (query.carried cheaper).1 ≤ (query.carried channels).1 := by
  rw [UInt64.le_iff_toNat_le, toNat_carried, toNat_carried]
  omega

/-- What a cheaper end saves is saved in front of it as well. -/
theorem feeSum_append_add_le (front : List Channel)
    (h : Hop.feeSum (query.hopsOver cheaper) ≤ Hop.feeSum (query.hopsOver channels)) :
    Hop.feeSum (query.hopsOver (front ++ cheaper)) + Hop.feeSum (query.hopsOver channels) ≤
      Hop.feeSum (query.hopsOver (front ++ channels)) + Hop.feeSum (query.hopsOver cheaper) := by
  induction front with
  | nil =>
    rw [List.nil_append, List.nil_append]
    omega
  | cons channel rest ih =>
    rw [List.cons_append, List.cons_append, feeSum_hopsOver_cons, feeSum_hopsOver_cons]
    have hcarried : (query.carried (rest ++ cheaper)).1 ≤ (query.carried (rest ++ channels)).1 :=
      carried_le_carried (by omega)
    have hfee := UInt64.le_iff_toNat_le.mp (channel.fee_mono hcarried)
    omega

/-- The first channel of a way may be followed by a cheaper way that is no longer, if it accepts what
that asks for. -/
theorem IsWay.replace (way : query.IsWay graph node (channel :: rest))
    (other : query.IsWay graph channel.destination cheaper)
    (within : query.maxHops = 0 ∨ cheaper.length ≤ rest.length)
    (lower : Hop.feeSum (query.hopsOver cheaper) ≤ Hop.feeSum (query.hopsOver rest))
    (least : channel.minHtlc ≤ (query.carried cheaper).1) :
    query.IsWay graph node (channel :: cheaper) := by
  obtain ⟨-, stored, starts, hops, permitted, usable, priced⟩ := isWay_cons.mp way
  have hcarried := carried_le_carried lower
  have hfee := UInt64.le_iff_toNat_le.mp (channel.fee_mono hcarried)
  refine isWay_cons.mpr ⟨other, stored, starts, by omega, permitted, ?_, by omega⟩
  exact Channel.canUse_of_le usable least hcarried

/-- The end of the hops over channels is the hops over the last channels. -/
theorem hopsOver_eq_append {front back : List Hop} (h : query.hopsOver channels = front ++ back) :
    channels = front.map (·.channel) ++ back.map (·.channel) ∧
      query.hopsOver (back.map (·.channel)) = back := by
  induction front generalizing channels with
  | nil =>
    have hback : back.map (·.channel) = channels := by
      rw [← List.nil_append back, ← h, map_channel_hopsOver]
    rw [hback]
    exact ⟨rfl, h⟩
  | cons hop front ih =>
    cases channels with
    | nil => cases h
    | cons channel rest =>
      rw [hopsOver_cons, List.cons_append, List.cons.injEq] at h
      obtain ⟨rfl, h⟩ := h
      obtain ⟨hrest, hback⟩ := ih h
      exact ⟨congrArg (channel :: ·) hrest, hback⟩

/-- No hop carries less than the amount asked for. -/
theorem amount_le_of_mem_hopsOver {hop : Hop} (mem : hop ∈ query.hopsOver channels) :
    query.amount ≤ hop.amount := by
  induction channels with
  | nil => cases mem
  | cons channel rest ih =>
    rcases List.mem_cons.mp mem with rfl | mem
    · exact amount_le_carried
    · exact ih mem

/-- A loop over channels that charge for the amount asked for is not free. -/
theorem feeSum_loop_ne_zero {front loop back : List Hop}
    (charging : ∀ channel ∈ channels, 0 < channel.fee query.amount)
    (h : query.hopsOver channels = front ++ loop ++ back) (nonempty : loop ≠ []) :
    Hop.feeSum loop ≠ 0 := by
  obtain ⟨hop, rest, rfl⟩ := List.exists_cons_of_ne_nil nonempty
  have mem : hop ∈ query.hopsOver channels := by simp [h]
  have hfee := hop.channel.fee_mono (amount_le_of_mem_hopsOver mem)
  have hpos := UInt64.lt_of_lt_of_le (charging _ (channel_mem_of_mem_hopsOver mem)) hfee
  rw [UInt64.lt_iff_toNat_lt] at hpos
  simp only [UInt64.reduceToNat] at hpos
  rw [Hop.feeSum_cons]
  omega

end Query

namespace Search

variable {graph : Graph} {query : Query} {settled : List Label} {search : Search}
  {visit : Visit} {others : List Visit} {label : Label} {node middle : NodeId}

/-- The end of a path, its first hop at least left out, is what the table leads along from a settled
label. -/
theorem Coherent.exists_leads_back (coherent : Coherent graph query settled search)
    (indexed : graph.IsIndexed) {front back : List Hop} (nonempty : front ≠ []) {steps : Nat}
    (h : trace query search.hops steps label = some (front ++ back)) :
    ∃ behind ∈ settled, Route.connects behind.node label.node front ∧
      ∃ channels, Leads graph query search behind channels ∧ Deep query behind channels ∧
        query.hopsOver channels = back := by
  induction front generalizing label steps with
  | nil => exact absurd rfl nonempty
  | cons hop front ih =>
    obtain ⟨-, hsource, behind, mem, hnode, -, steps, htrace⟩ := coherent.trace_cons indexed h
    simp only [Route.connects, Bool.and_eq_true, decide_eq_true_eq]
    cases front with
    | nil =>
      obtain ⟨channels, leads, deep, -⟩ :=
        coherent.exists_leads indexed behind (coherent.isSettled behind mem).finite
      have hmore := trace_mono htrace (Nat.le_max_left steps channels.length)
      rw [leads.trace _ (Nat.le_max_right steps channels.length), Option.some.injEq] at hmore
      refine ⟨behind, mem, ⟨hsource, ?_⟩, channels, leads, deep, hmore⟩
      simp [Route.connects, hnode]
    | cons next front =>
      obtain ⟨further, hfurther, connects, leads⟩ := ih (List.cons_ne_nil _ _) htrace
      exact ⟨further, hfurther, ⟨hsource, hnode ▸ connects⟩, leads⟩

/-- Without the loop, a way is still one and is settled at no more than its price, or it meets the
queue at no more, unless a channel in front refuses less. -/
theorem Explores.within_without_loop (h : Explores graph query settled search)
    (indexed : graph.IsIndexed) {front loop back : List Channel}
    (way : query.IsWay graph node (front ++ (loop ++ back)))
    (meets : Route.connects middle node (query.hopsOver front))
    (behind : query.IsWay graph middle back)
    (within : SettledWithin query settled search middle back.length
      (Hop.feeSum (query.hopsOver back)))
    (lower : Hop.feeSum (query.hopsOver back) ≤ Hop.feeSum (query.hopsOver (loop ++ back))) :
    (query.IsWay graph node (front ++ back) ∧
      SettledWithin query settled search node (front ++ back).length
        (Hop.feeSum (query.hopsOver (front ++ back)))) ∨
    QueuedWithin search (Hop.feeSum (query.hopsOver (front ++ back))) ∨
      query.RefusesLess graph front back.length := by
  induction front generalizing node with
  | nil =>
    have hnode : node = middle := by simpa [Route.connects] using meets
    exact .inl ⟨hnode ▸ behind, hnode ▸ within⟩
  | cons channel rest ih =>
    simp only [Query.hopsOver_cons, Route.connects, Bool.and_eq_true] at meets
    rw [List.cons_append] at way
    obtain ⟨other, settledRest⟩ | queued | refuses := ih (Query.isWay_cons.mp way).1 meets.2
    case inr.inl =>
      refine .inr (.inl (queued.mono ?_))
      rw [List.cons_append, Query.feeSum_hopsOver_cons]
      omega
    case inr.inr => exact .inr (.inr refuses.cons)
    by_cases least : channel.minHtlc ≤ (query.carried (rest ++ back)).1
    case neg =>
      refine .inr (.inr ⟨[], channel, rest, rest ++ back, rfl, other, .inr ?_, ?_⟩)
      · rw [List.length_append]
      · exact UInt64.not_le.mp least
    have saved := Query.feeSum_append_add_le rest lower
    have shorter : (rest ++ back).length ≤ (rest ++ (loop ++ back)).length := by
      simp only [List.length_append]
      omega
    have way' := way.replace other (.inr shorter) (by omega) least
    obtain settledAll | queued | ⟨cheaper, hcheaper, hops, least⟩ :=
      h.within_cons indexed way' settledRest
    · exact .inl ⟨way', settledAll⟩
    · exact .inr (.inl queued)
    · refine .inr (.inr ⟨[], channel, rest, cheaper, rfl, hcheaper, ?_, least⟩)
      rwa [List.length_append] at hops

/-- A loop on the path that a search has found is free, or a channel in front of it refuses less. -/
theorem Reaches.loop_free_or_refusesLess (h : Reaches graph query settled search visit others)
    (indexed : graph.IsIndexed) {front loop back : List Hop}
    (found : (search.arrival query visit others).path? query = some (front ++ loop ++ back))
    (isLoop : Hop.IsLoop loop) :
    Hop.feeSum loop = 0 ∨ query.RefusesLess graph (front.map (·.channel)) back.length := by
  have coherent := h.explores.coherent
  obtain ⟨nonempty, at', hloop⟩ := isLoop
  obtain ⟨channels, way, price, hpath⟩ := h.exists_way indexed
  have inFront : front ++ loop ≠ [] := by simp [nonempty]
  obtain ⟨behind, mem, connects, last, leads, deep, rfl⟩ :=
    coherent.exists_leads_back indexed inFront found
  obtain ⟨start, hfront, hmiddle⟩ := Route.connects_append.mp connects
  obtain ⟨rfl, hnode⟩ := Route.connects_unique hmiddle hloop nonempty
  -- The path and its ends are the hops over their channels.
  rw [found, Option.some.injEq, List.append_assoc, eq_comm] at hpath
  obtain ⟨hchannels, hback⟩ := Query.hopsOver_eq_append hpath
  rw [List.map_append, Query.map_channel_hopsOver] at hchannels hback
  subst hchannels
  have hmeets : Route.connects behind.node query.source
      (query.hopsOver (front.map (·.channel))) := by
    rw [Route.connects_congr Query.map_channel_hopsOver, hnode]
    exact hfront
  have within : SettledWithin query settled search behind.node last.length
      (Hop.feeSum (query.hopsOver last)) := by
    refine ⟨behind, mem, rfl, ?_, Nat.le_of_eq leads.cost⟩
    unfold Deep at deep
    omega
  have lower : Hop.feeSum (query.hopsOver last) ≤
      Hop.feeSum (query.hopsOver (loop.map (·.channel) ++ last)) := by
    rw [hback, Hop.feeSum_append]
    omega
  obtain ⟨-, atSource⟩ | queued | refuses :=
    h.explores.within_without_loop indexed way hmeets leads.way within lower
  · exact absurd atSource coherent.not_settledWithin_source
  · -- The path as found is no dearer than without the loop.
    have least := h.cost_le_of_queuedWithin queued
    have saved := Query.feeSum_append_add_le (front.map (·.channel)) lower
    rw [hback, Hop.feeSum_append] at saved
    left
    omega
  · right
    rwa [Query.length_hopsOver]

/-- What a search arrives with comes by a node twice for the fees of a loop only, or for nothing. -/
theorem Reaches.exists_isDirect (h : Reaches graph query settled search visit others)
    (indexed : graph.IsIndexed) (ends : query.source ≠ query.destination) :
    ∃ hops, (search.arrival query visit others).path? query = some hops ∧
      query.IsDirect graph hops := by
  obtain ⟨hops, hpath, isPath⟩ := h.exists_isPath indexed ends
  obtain ⟨channels, way, -, hpath'⟩ := h.exists_way indexed
  obtain rfl : query.hopsOver channels = hops := Option.some.inj (hpath'.symm.trans hpath)
  have loops : ∀ front loop back, query.hopsOver channels = front ++ loop ++ back →
      Hop.IsLoop loop → Hop.feeSum loop = 0 ∨
        query.RefusesLess graph (front.map (·.channel)) back.length := by
    intro front loop back heq isLoop
    exact h.loop_free_or_refusesLess indexed (heq ▸ hpath) isLoop
  refine ⟨_, hpath, isPath.source_once, isPath.destination_once, ?unlimited, loops, ?charging⟩
  case unlimited => exact fun unlimited => Query.isSimple_of_nodup (isPath.simple unlimited)
  case charging =>
    intro charging
    refine Query.isSimple_of_nodup ((Route.nodup_visited_iff way.connects).mpr ?_)
    intro front loop back heq isLoop
    rcases loops front loop back heq isLoop with free | refuses
    · refine Query.feeSum_loop_ne_zero (fun channel mem => ?_) heq isLoop.1 free
      exact (charging channel (way.stored channel mem)).2
    · obtain ⟨channel, mem, least⟩ := refuses.exists_lt_minHtlc
      obtain ⟨hop, hmem, rfl⟩ := List.mem_map.mp mem
      have hhop : hop ∈ query.hopsOver channels := by simp [heq, hmem]
      have stored := way.stored _ (Query.channel_mem_of_mem_hopsOver hhop)
      exact absurd (charging _ stored).1 (UInt64.not_le.mpr least)

end Search

namespace Graph

variable {graph : Graph} {query : Query}

/-- **Loops.**  The path that a search of an indexed graph answers with comes by its ends once, and
without a hop limit by no node twice.  With a limit it comes back to a node only over hops that
charge nothing, or behind a channel that refuses what some way, no longer than the path is without
them, asks for; so never in a graph whose channels all accept the amount asked for and charge for
it.  The same is so of any other order among visits of equal cost. -/
theorem findPath_isDirect (indexed : graph.IsIndexed) (query : Query) :
    (∀ hops, graph.findPath query = .ok hops → query.IsDirect graph hops) ∧
    ∀ settled search visit rest, query.source ≠ query.destination →
      Search.Reaches graph query settled search visit rest →
        ∃ hops, (search.arrival query visit rest).path? query = some hops ∧
          query.IsDirect graph hops := by
  refine ⟨?_, fun _ _ _ _ ends reaches => reaches.exists_isDirect indexed ends⟩
  intro hops found
  obtain ⟨ends, settled, search, visit, rest, reaches, -, hpath⟩ :=
    exists_arrival_of_findPath_eq_ok found
  obtain ⟨hops', hpath', isDirect⟩ := reaches.exists_isDirect indexed ends
  rwa [Option.some.inj (hpath'.symm.trans hpath)] at isDirect

/-! ### A toll and a ring -/

/-- The channel from `A` to `B` carries no less than 1001500.  The fees behind it come to that much
only if a payment goes around between `B` and `C` twice. -/
def tollChannels : List Channel :=
  [{ diamondChannel 1 "A" "B" 1 with minHtlc := 1001500 }, diamondChannel 2 "B" "C" 1,
    diamondChannel 3 "C" "B" 999, diamondChannel 4 "B" "D" 1]

def toll : Graph := empty.addAll tollChannels

def tollQuery : Query where
  source := ⟨"A"⟩
  destination := ⟨"D"⟩
  amount := 1000000

/-- The only path through the toll that carries enough. -/
def tollPath : List Channel :=
  [{ diamondChannel 1 "A" "B" 1 with minHtlc := 1001500 }, diamondChannel 2 "B" "C" 1,
    diamondChannel 3 "C" "B" 999, diamondChannel 2 "B" "C" 1, diamondChannel 3 "C" "B" 999,
    diamondChannel 4 "B" "D" 1]

theorem toll_isIndexed : toll.IsIndexed :=
  isIndexed_empty.addAll (by decide +kernel) (by decide +kernel)

theorem findPath_toll : toll.findPath tollQuery = .ok (tollQuery.hopsOver tollPath) := by
  decide +kernel

/-- Both times around the loop are paid for what the channel from `A` to `B` refuses. -/
theorem findPath_toll_isDirect :
    toll.findPath tollQuery = .ok (tollQuery.hopsOver tollPath) ∧
    tollQuery.IsDirect toll (tollQuery.hopsOver tollPath) :=
  ⟨findPath_toll, (findPath_isDirect toll_isIndexed tollQuery).1 _ findPath_toll⟩

/-- Free channels, with a ring of `C` and `E` and a longer one by `B`. -/
def ringChannels : List Channel :=
  [diamondChannel 1 "A" "B" 0, diamondChannel 2 "E" "B" 0, diamondChannel 3 "E" "C" 0,
    diamondChannel 4 "B" "C" 0, diamondChannel 5 "C" "E" 0, diamondChannel 6 "C" "D" 0]

def ring : Graph := empty.addAll ringChannels

def ringQuery : Query where
  source := ⟨"A"⟩
  destination := ⟨"D"⟩
  amount := 1000000
  maxHops := 5

theorem ring_isIndexed : ring.IsIndexed :=
  isIndexed_empty.addAll (by decide +kernel) (by decide +kernel)

/-- In a graph that leads no node to itself a path may come by a node, and go over a channel, more
than once: for the fees that a channel wants to see, and for nothing where all is free. -/
theorem findPath_not_isSimple :
    (toll.IsIndexed ∧ toll.IsLoopFree ∧ ∃ hops, toll.findPath tollQuery = .ok hops ∧
      ¬ (tollQuery.visited hops).Nodup ∧ ¬ (hops.map (·.channel)).Nodup) ∧
    ring.IsIndexed ∧ ring.IsLoopFree ∧ ∃ hops,
      ring.findPath ringQuery = .ok hops ∧ ¬ (ringQuery.visited hops).Nodup := by
  have loopFree : ∀ channels : List Channel, (∀ channel ∈ channels, channel.source ≠
      channel.destination) → (empty.addAll channels).IsLoopFree := by
    intro channels all id channel h
    rcases mem_of_channel?_addAll h with h | h
    · exact all channel h
    · simp [channel?, empty] at h
  refine ⟨⟨toll_isIndexed, loopFree _ (by decide), _, findPath_toll, ?_, ?_⟩, ring_isIndexed,
    loopFree _ (by decide), ?_⟩
  · decide +kernel
  · decide +kernel
  · refine ⟨ringQuery.hopsOver [diamondChannel 1 "A" "B" 0, diamondChannel 4 "B" "C" 0,
      diamondChannel 5 "C" "E" 0, diamondChannel 3 "E" "C" 0, diamondChannel 6 "C" "D" 0], ?_, ?_⟩
    · decide +kernel
    · decide +kernel

end Graph

end Rebalancing
