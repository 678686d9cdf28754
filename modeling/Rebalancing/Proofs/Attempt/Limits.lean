import Mathlib.Data.UInt
import Rebalancing.Proofs.Attempt.Safety
import Rebalancing.Proofs.Path.Widening

/-!
# Hop limits of a request

As long as there is time, a request is searched for under one hop limit after another,
until a route is found or the limit cannot grow.  `Rebalancer.Searches` says what these
searches come to from a limit on, one constructor for each way a search may go, and
`Rebalancer.Widens` what is promised of all of them: the limits grow by the step up to
the ceiling, all searches but the last are in vain, and a request that sets a limit is
answered like one search under the ceiling.  The last needs two searches to be compared:
what is found under a limit is found under every wider one.
-/

namespace Rebalancing

/-- If a route is found under a hop limit, one is found under every wider limit. -/
theorem Graph.exists_findRoute_of_le {graph : Graph} (indexed : graph.IsIndexed) (query : Query)
    {limit wider : Nat} (limited : limit ≠ 0) (le : limit ≤ wider)
    (ends : query.source ≠ query.destination) (positive : 0 < query.amount)
    (found : ∃ route, graph.findRoute (query.limitedTo limit) = .ok route) :
    ∃ route, graph.findRoute (query.limitedTo wider) = .ok route := by
  obtain ⟨route, found⟩ := found
  obtain ⟨_, _, -, -, none⟩ | ⟨_, _, _, _, _, reaches, -⟩ :=
    @findPath_cases graph (query.limitedTo limit) indexed ends positive
  · rw [findRoute, none] at found
    cases found
  · obtain ⟨_, _, explores, empty, -⟩ | ⟨_, _, _, _, _, -, -, -, hfound⟩ :=
      @findPath_cases graph (query.limitedTo wider) indexed ends positive
    · exact absurd (reaches.queuedWithin limited le explores) (Search.not_queuedWithin_of_empty empty)
    · exact ⟨_, congrArg (Except.map _) hfound⟩

namespace Rebalancer

variable {engine : Rebalancer} {request : RebalanceRequest} {source destination : NodeId}
  {elapsed : Nat → Nat} {limit : UInt64} {limits : List UInt64} {attempts : Nat}
  {before : Progress} {answer : Except RebalanceError Route}

/-! ## The searches from a limit on -/

/-- The limits of the searches from a hop limit on, in order, and what the last one leads to. -/
inductive Searches (engine : Rebalancer) (request : RebalanceRequest)
    (source destination : NodeId) : UInt64 → List UInt64 → Except RebalanceError Route → Prop
  /-- A search that finds a route is the last one. -/
  | found {limit : UInt64} {route : Route} :
      engine.graph.findRoute (engine.query request.amount source destination limit) = .ok route →
      Searches engine request source destination limit [limit] (.ok route)
  /-- So is one in vain whose limit cannot grow. -/
  | inVain {limit : UInt64} :
      engine.graph.findRoute (engine.query request.amount source destination limit) =
        .error (.noRoute source destination) →
      limit = 0 ∨ engine.ceiling request ≤ limit →
      Searches engine request source destination limit [limit]
        (.error (.noRoute source destination limit))
  /-- Any other is followed by a wider one. -/
  | wider {limit : UInt64} {limits : List UInt64} {answer : Except RebalanceError Route} :
      engine.graph.findRoute (engine.query request.amount source destination limit) =
        .error (.noRoute source destination) →
      limit ≠ 0 → limit < engine.ceiling request →
      Searches engine request source destination (engine.wider request limit) limits answer →
      Searches engine request source destination limit (limit :: limits) answer

/-- No search that a request comes to is begun too late. -/
def InTime (engine : Rebalancer) (request : RebalanceRequest) (source destination : NodeId)
    (elapsed : Nat → Nat) : Prop :=
  ∀ limit attempts, engine.Tries request source destination elapsed limit attempts →
    elapsed attempts < engine.tuning.deadline.toNat

/-- Widening passes through the searches `limits`, numbered from `attempts` on: it comes to the same
as going on from any of them. -/
def Passes (engine : Rebalancer) (request : RebalanceRequest) (source destination : NodeId)
    (elapsed : Nat → Nat) (attempts : Nat) (limits : List UInt64) (before : Progress)
    (ending : Except RebalanceError (Route × Nat) × Progress) : Prop :=
  ∀ search ∈ limits.zipIdx attempts,
    (engine.widen request source destination elapsed search.1 search.2).run.run
      { before with state := searching search.2 } = ending

theorem passes_nil {ending : Except RebalanceError (Route × Nat) × Progress} :
    engine.Passes request source destination elapsed attempts [] before ending :=
  List.forall_mem_nil _

theorem passes_cons {ending : Except RebalanceError (Route × Nat) × Progress} :
    engine.Passes request source destination elapsed attempts (limit :: limits) before ending ↔
      (engine.widen request source destination elapsed limit attempts).run.run
          { before with state := searching attempts } = ending ∧
        engine.Passes request source destination elapsed (attempts + 1) limits before ending := by
  unfold Passes
  rw [List.zipIdx_cons, List.forall_mem_cons]

/-- Widening makes the searches from its limit on, and counts them. -/
theorem widen_searches (ends : source ≠ destination) (positive : request.amount ≠ 0)
    (inTime : engine.InTime request source destination elapsed)
    (tries : Tries engine request source destination elapsed limit attempts)
    (start : before.state = searching attempts) :
    ∃ limits answer state ending, Searches engine request source destination limit limits answer ∧
      ending = (answer.map fun route => (route, attempts + limits.length), { before with state }) ∧
      (engine.widen request source destination elapsed limit attempts).run.run before = ending ∧
      engine.Passes request source destination elapsed attempts limits before ending := by
  induction limit, attempts using @widen.induct Progress _ engine request source destination elapsed
    generalizing before with
  | case1 limit attempts late => exact absurd (inTime _ _ tries) (Nat.not_lt.mpr late)
  | case2 limit attempts late ih =>
    have inTime' := Nat.not_le.mp late
    have here : { before with state := searching attempts } = before := by rw [← start]
    obtain ⟨route, hroute⟩ | hroute := engine.graph.findRoute_eq_ok_or_noRoute
      (engine.query request.amount source destination limit) ends positive
    · have hrun := run_widen_found start inTime' hroute
      exact ⟨_, _, _, _, .found hroute, rfl, hrun, passes_cons.mpr ⟨here ▸ hrun, passes_nil⟩⟩
    · have hrun := run_widen_inVain start inTime' hroute
      by_cases grows : limit ≠ 0 ∧ limit < engine.ceiling request
      · rw [if_pos grows] at hrun
        have again : ({ before with state := .noRouteFound } : Progress).state =
          searching (attempts + 1) := rfl
        obtain ⟨limits, answer, state, ending, searches, rfl, hwider, passes⟩ :=
          ih grows (tries.wider inTime' hroute grows.1 grows.2) again
        rw [hwider] at hrun
        refine ⟨_, _, state, _, .wider hroute grows.1 grows.2 searches, ?_, hrun,
          passes_cons.mpr ⟨here ▸ hrun, passes⟩⟩
        rw [List.length_cons, Nat.add_comm limits.length, Nat.add_assoc]
      · rw [if_neg grows] at hrun
        rw [not_and_or, not_not, UInt64.not_lt] at grows
        exact ⟨_, _, _, _, .inVain hroute grows, rfl, hrun, passes_cons.mpr ⟨here ▸ hrun, passes_nil⟩⟩

/-! ## What the searches have in common -/

theorem Searches.exists_cons (h : Searches engine request source destination limit limits answer) :
    ∃ rest, limits = limit :: rest := by
  cases h <;> exact ⟨_, rfl⟩

/-- A limit below the ceiling grows. -/
theorem self_lt_wider (below : limit < engine.ceiling request) :
    limit < engine.wider request limit :=
  UInt64.lt_iff_toNat_lt.mpr (engine.lt_wider request below)

/-- A wider limit in numbers. -/
theorem toNat_wider (engine : Rebalancer) (request : RebalanceRequest) (limit : UInt64) :
    (engine.wider request limit).toNat =
      min (limit.toNat + max engine.tuning.hopStep.toNat 1) (engine.ceiling request).toNat := by
  have := (engine.ceiling request).toNat_lt
  rw [wider, UInt64.toNat_min, UInt64.toNat_satAdd, UInt64.toNat_max,
    show (1 : UInt64).toNat = 1 from rfl]
  omega

/-- Each limit is above the one before it, by the step or up to the ceiling. -/
theorem Searches.isChain (h : Searches engine request source destination limit limits answer) :
    limits.IsChain fun limit next => limit < next ∧
      next = min (limit.satAdd (max engine.tuning.hopStep 1)) (engine.ceiling request) := by
  induction h with
  | found | inVain => exact List.isChain_singleton _
  | wider _ _ below searches ih =>
    obtain ⟨rest, rfl⟩ := searches.exists_cons
    exact List.isChain_cons_cons.mpr ⟨⟨self_lt_wider below, rfl⟩, ih⟩

/-- Limit number `k` is `k` steps above the first one, as far as the ceiling admits. -/
theorem Searches.toNat_eq (h : Searches engine request source destination limit limits answer)
    (le : limit ≤ engine.ceiling request) {k : Nat} {limit' : UInt64}
    (number : limits[k]? = some limit') : limit'.toNat =
      min (limit.toNat + k * max engine.tuning.hopStep.toNat 1) (engine.ceiling request).toNat := by
  rw [UInt64.le_iff_toNat_le] at le
  induction h generalizing k with
  | found | inVain =>
    cases k with
    | zero =>
      cases number
      omega
    | succ k => cases number
  | @wider limit _ _ _ _ _ _ ih =>
    cases k with
    | zero =>
      cases number
      omega
    | succ k =>
      have hwider := toNat_wider engine request limit
      rw [ih (by omega) number, hwider, Nat.add_one_mul]
      omega

/-- All searches but the last are in vain. -/
theorem Searches.inVain_of_mem_dropLast
    (h : Searches engine request source destination limit limits answer) :
    ∀ limit ∈ limits.dropLast,
      engine.graph.findRoute (engine.query request.amount source destination limit) =
        .error (.noRoute source destination) := by
  induction h with
  | found | inVain => exact List.forall_mem_nil _
  | wider inVain _ _ searches ih =>
    obtain ⟨rest, rfl⟩ := searches.exists_cons
    exact List.forall_mem_cons.mpr ⟨inVain, ih⟩

/-- The last one finds the route that is answered, or it is in vain and its limit cannot grow. -/
theorem Searches.exists_getLast?
    (h : Searches engine request source destination limit limits answer) :
    ∃ last, limits.getLast? = some last ∧ limit ≤ last ∧
      ((∃ route, answer = .ok route ∧
          engine.graph.findRoute (engine.query request.amount source destination last) =
            .ok route) ∨
        answer = .error (.noRoute source destination last) ∧
          engine.graph.findRoute (engine.query request.amount source destination last) =
            .error (.noRoute source destination) ∧
          (last = 0 ∨ engine.ceiling request ≤ last)) := by
  induction h with
  | found hroute => exact ⟨_, rfl, UInt64.le_refl _, .inl ⟨_, rfl, hroute⟩⟩
  | inVain hroute stuck => exact ⟨_, rfl, UInt64.le_refl _, .inr ⟨rfl, hroute, stuck⟩⟩
  | wider _ _ below searches ih =>
    obtain ⟨last, hlast, le, ends⟩ := ih
    obtain ⟨rest, rfl⟩ := searches.exists_cons
    exact ⟨last, hlast, UInt64.le_trans (UInt64.le_of_lt (self_lt_wider below)) le, ends⟩

/-- No limit is above the ceiling, if the first one is not. -/
theorem Searches.le_ceiling (h : Searches engine request source destination limit limits answer)
    (le : limit ≤ engine.ceiling request) : ∀ limit ∈ limits, limit ≤ engine.ceiling request := by
  intro limit' mem
  obtain ⟨k, number⟩ := List.mem_iff_getElem?.mp mem
  rw [UInt64.le_iff_toNat_le, h.toNat_eq le number]
  omega

/-- Without a limit there is nothing to widen. -/
theorem Searches.eq_singleton (h : Searches engine request source destination 0 limits answer) :
    limits = [0] := by
  cases h with
  | found | inVain => rfl
  | wider _ limited => exact absurd rfl limited

/-- The searches from a limit on find a route if and only if one search under the ceiling does;
otherwise the ceiling is reported. -/
theorem Searches.answer_eq (h : Searches engine request source destination limit limits answer)
    (indexed : engine.graph.IsIndexed) (ends : source ≠ destination)
    (positive : request.amount ≠ 0) (limited : limit ≠ 0) (le : limit ≤ engine.ceiling request) :
    ((∃ route, answer = .ok route) ↔ ∃ route, engine.graph.findRoute
      (engine.query request.amount source destination (engine.ceiling request)) = .ok route) ∧
    ((¬ ∃ route, engine.graph.findRoute
        (engine.query request.amount source destination (engine.ceiling request)) = .ok route) →
      answer = .error (.noRoute source destination (engine.ceiling request))) := by
  obtain ⟨last, hlast, hle, ⟨route, rfl, hroute⟩ | ⟨rfl, hroute, stuck⟩⟩ := h.exists_getLast?
  · have positive' : 0 < request.amount := UInt64.pos_iff_ne_zero.mpr positive
    have hne : last.toNat ≠ 0 := by
      have := UInt64.toNat_inj.not.mpr limited
      rw [UInt64.le_iff_toNat_le] at hle
      rw [UInt64.toNat_zero] at this
      omega
    have hceiling := UInt64.le_iff_toNat_le.mp (h.le_ceiling le last (List.mem_of_getLast? hlast))
    have found := Graph.exists_findRoute_of_le indexed
      (engine.query request.amount source destination last) hne hceiling ends positive'
      ⟨route, hroute⟩
    exact ⟨⟨fun _ => found, fun _ => ⟨route, rfl⟩⟩, fun none => absurd found none⟩
  · have hlimited : last ≠ 0 := by
      rintro rfl
      rw [UInt64.le_iff_toNat_le, UInt64.toNat_zero] at hle
      exact limited (UInt64.toNat_inj.mp (Nat.le_zero.mp hle))
    have heq : last = engine.ceiling request :=
      UInt64.le_antisymm (h.le_ceiling le last (List.mem_of_getLast? hlast))
        (stuck.resolve_left hlimited)
    subst heq
    rw [hroute]
    exact ⟨⟨nofun, nofun⟩, fun _ => rfl⟩

/-! ## All searches of a request -/

/-- What is promised of the hop limits of a request, and of what it is answered. -/
structure Widens (engine : Rebalancer) (request : RebalanceRequest)
    (source destination : NodeId) (limits : List UInt64)
    (answer : Except RebalanceError Route) : Prop where
  starts : limits.head? = some request.initialMaxHops
  rises : limits.IsChain fun limit next => limit < next ∧
    next = min (limit.satAdd (max engine.tuning.hopStep 1)) (engine.ceiling request)
  numbered : ∀ (k : Nat) (limit : UInt64), limits[k]? = some limit → limit.toNat =
    min (request.initialMaxHops.toNat + k * max engine.tuning.hopStep.toNat 1)
      (max engine.tuning.maxHopsCeiling.toNat request.initialMaxHops.toNat)
  /-- Each search but the last is in vain. -/
  inVain : ∀ limit ∈ limits.dropLast,
    engine.graph.findRoute (engine.query request.amount source destination limit) =
      .error (.noRoute source destination)
  /-- The last one finds the route, or its limit is the widest one. -/
  stops : ∃ last, limits.getLast? = some last ∧
    ((∃ route, answer = .ok route ∧
        engine.graph.findRoute (engine.query request.amount source destination last) = .ok route) ∨
      answer = .error (.noRoute source destination last) ∧
        engine.graph.findRoute (engine.query request.amount source destination last) =
          .error (.noRoute source destination) ∧
        (last = 0 ∨ last = engine.ceiling request))
  /-- A request that sets a limit is answered like one search under the ceiling. -/
  exhaustive : request.initialMaxHops ≠ 0 →
    ((∃ route, answer = .ok route) ↔ ∃ route, engine.graph.findRoute
      (engine.query request.amount source destination (engine.ceiling request)) = .ok route)
  otherwise : request.initialMaxHops ≠ 0 →
    (¬ ∃ route, engine.graph.findRoute
      (engine.query request.amount source destination (engine.ceiling request)) = .ok route) →
    answer = .error (.noRoute source destination (engine.ceiling request))
  /-- One that sets none is searched for once. -/
  once : request.initialMaxHops = 0 → limits = [0]

/-- The searches from the limit of the request on keep these promises. -/
theorem Searches.widens
    (h : Searches engine request source destination request.initialMaxHops limits answer)
    (indexed : engine.graph.IsIndexed) (ends : source ≠ destination)
    (positive : request.amount ≠ 0) :
    engine.Widens request source destination limits answer := by
  have le := engine.initialMaxHops_le_ceiling request
  obtain ⟨rest, hlimits⟩ := h.exists_cons
  refine
    { starts := by rw [hlimits, List.head?_cons]
      rises := h.isChain
      numbered := ?_
      inVain := h.inVain_of_mem_dropLast
      stops := ?_
      exhaustive := fun limited => (h.answer_eq indexed ends positive limited le).1
      otherwise := fun limited => (h.answer_eq indexed ends positive limited le).2
      once := ?_ }
  · intro k limit number
    rw [h.toNat_eq le number, toNat_ceiling]
  · obtain ⟨last, hlast, -, found | ⟨hanswer, hroute, stuck⟩⟩ := h.exists_getLast?
    · exact ⟨last, hlast, .inl found⟩
    · refine ⟨last, hlast, .inr ⟨hanswer, hroute, stuck.imp_right fun reached => ?_⟩⟩
      exact UInt64.le_antisymm (h.le_ceiling le last (List.mem_of_getLast? hlast)) reached
  · intro unlimited
    rw [unlimited] at h
    exact h.eq_singleton

/-- **Widening.**  The search between two nodes for a positive amount ends, if there is time for it: its
hop limits rise as promised from the one of the request, the answer is the one promised, and it
counts the limits. -/
theorem interior_widens (indexed : engine.graph.IsIndexed) (ends : source ≠ destination)
    (positive : request.amount ≠ 0) (inTime : engine.InTime request source destination elapsed) :
    ∃ limits answer state ending, engine.Widens request source destination limits answer ∧
      ending = (answer.map fun route => (route, limits.length), { state }) ∧
      (engine.interior request source destination elapsed).run.run {} = ending ∧
      engine.Passes request source destination elapsed 0 limits {} ending := by
  have start : ({} : Progress).state = searching 0 := rfl
  obtain ⟨limits, answer, state, ending, searches, hending, hrun, passes⟩ :=
    widen_searches ends positive inTime .first start
  refine ⟨limits, answer, state, ending, searches.widens indexed ends positive, ?_, ?_, passes⟩
  · rw [hending, Nat.zero_add]
  · rw [interior, if_neg ends]
    exact hrun

/-! ### A detour -/

/-- From the payer `S` to its peer `X`, to its peer `Y` over two others, and back. -/
def detourChannels : List Channel :=
  [triangleChannel 1 "S" "X" 50000000 0, triangleChannel 2 "X" "A" 50000000 0,
    triangleChannel 3 "A" "B" 50000000 0, triangleChannel 4 "B" "Y" 50000000 0,
    triangleChannel 5 "Y" "S" 50000000 0]

def detour : Rebalancer where
  graph := Graph.empty.addAll detourChannels
  self := ⟨"S"⟩
  tuning := { hopStep := 0, maxHopsCeiling := 4 }

def detourRequest : RebalanceRequest where
  outgoing := .ofParts 1 0 0
  incoming := .ofParts 5 0 0
  amount := 1000000
  maxPpm := 2000
  initialMaxHops := 1

theorem detour_isIndexed : detour.graph.IsIndexed :=
  Graph.isIndexed_empty.addAll (by decide +kernel) (by decide +kernel)

/-- A step of zero counts as one, and the third search finds the way around. -/
theorem interior_widens_detour : ∃ limits answer,
    detour.Widens detourRequest ⟨"X"⟩ ⟨"Y"⟩ limits answer ∧ limits.length = 3 := by
  have inTime : detour.InTime detourRequest ⟨"X"⟩ ⟨"Y"⟩ fun _ => 0 := by
    intro _ _ _
    show 0 < detour.tuning.deadline.toNat
    decide
  obtain ⟨limits, answer, state, ending, widens, rfl, hrun, -⟩ :=
    interior_widens detour_isIndexed (by decide) (by decide) inTime
  have attempts : ((detour.interior detourRequest ⟨"X"⟩ ⟨"Y"⟩ fun _ => 0).run.run
      ({} : Progress)).1.map (·.2) = .ok 3 := by
    decide +kernel
  rw [hrun] at attempts
  refine ⟨limits, answer, widens, ?_⟩
  cases answer with
  | error => cases attempts
  | ok => exact Except.ok.inj attempts

end Rebalancer
end Rebalancing
