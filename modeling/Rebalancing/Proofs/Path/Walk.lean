import Mathlib.Data.List.Perm.Subperm
import Rebalancing.Path.Search

/-!
# Walking back through a table

A path is read off the table of hops, from the label where the source was reached, one hop
after another.  Nothing is assumed of the table here: it may lead nowhere, or around in a
circle.  `Search.Walks` are the walks through it.  One that arrives at the destination comes
by no label twice, because whatever follows a label is determined by it; so it is no longer
than the table, and giving up after as many hops as the table has misses none.
-/

namespace Rebalancing

open Std

namespace Search

variable {query : Query} {table : ExtTreeMap Label Hop} {label label' last last' : Label}
  {walked walked' : List (Label × Hop)} {steps : Nat} {hops : List Hop}

/-- The hops that a table leads over from a label, each with the label it is recorded for, and the
label they lead to.  No hop leads on from the destination. -/
inductive Walks (query : Query) (table : ExtTreeMap Label Hop) :
    Label → List (Label × Hop) → Label → Prop
  | stay {label : Label} : Walks query table label [] label
  | step {label last : Label} {hop : Hop} {walked : List (Label × Hop)} :
      label.node ≠ query.destination → table[label]? = some hop →
      Walks query table ⟨hop.channel.destination, query.layer (label.layer - 1)⟩ walked last →
      Walks query table label ((label, hop) :: walked) last

/-! ## Walks that arrive -/

/-- There is one walk from a label to the destination at most. -/
theorem Walks.unique (h : Walks query table label walked last)
    (h' : Walks query table label walked' last') (arrives : last.node = query.destination)
    (arrives' : last'.node = query.destination) : walked = walked' := by
  induction h generalizing walked' with
  | stay =>
    cases h' with
    | stay => rfl
    | step elsewhere => exact absurd arrives elsewhere
  | step elsewhere found _ ih =>
    cases h' with
    | stay => exact absurd arrives' elsewhere
    | step _ found' h' =>
      cases found.symm.trans found'
      rw [ih h' arrives]

/-- From every label that a walk comes by, some part of it leads to where it leads. -/
theorem Walks.exists_of_mem (h : Walks query table label walked last)
    (mem : label' ∈ walked.map Prod.fst) :
    ∃ walked', Walks query table label' walked' last ∧ walked'.length ≤ walked.length := by
  induction h with
  | stay => cases mem
  | step elsewhere found h ih =>
    rcases List.mem_cons.mp mem with rfl | mem
    · exact ⟨_, .step elsewhere found h, Nat.le_refl _⟩
    · obtain ⟨walked', h', le⟩ := ih mem
      exact ⟨walked', h', Nat.le_succ_of_le le⟩

/-- A walk that arrives does not come by a label twice: what follows the second time would have to
follow the first time as well. -/
theorem Walks.nodup (h : Walks query table label walked last)
    (arrives : last.node = query.destination) : (walked.map Prod.fst).Nodup := by
  induction h with
  | stay => exact List.nodup_nil
  | step elsewhere found h ih =>
    refine List.nodup_cons.mpr ⟨fun again => ?_, ih arrives⟩
    obtain ⟨walked', h', le⟩ := h.exists_of_mem again
    have same := h'.unique (.step elsewhere found h) arrives arrives
    rw [same, List.length_cons] at le
    exact Nat.not_succ_le_self _ le

theorem Walks.mem_of_mem (h : Walks query table label walked last)
    (mem : label' ∈ walked.map Prod.fst) : label' ∈ table := by
  induction h with
  | stay => cases mem
  | step _ found _ ih =>
    rcases List.mem_cons.mp mem with rfl | mem
    · exact ExtTreeMap.mem_iff_isSome_getElem?.mpr (found ▸ rfl)
    · exact ih mem

/-- So it has no more hops than the table. -/
theorem Walks.length_le_size (h : Walks query table label walked last)
    (arrives : last.node = query.destination) : walked.length ≤ table.size := by
  have sub : walked.map Prod.fst ⊆ table.keys := fun _ mem =>
    ExtTreeMap.mem_keys.mpr (h.mem_of_mem mem)
  have le := (List.subperm_of_subset (h.nodup arrives) sub).length_le
  rwa [List.length_map, ExtTreeMap.length_keys] at le

/-! ## What a trace finds -/

theorem trace_destination (here : label.node = query.destination) :
    trace query table steps label = some [] := by
  unfold trace
  rw [if_pos here]

theorem trace_zero (elsewhere : label.node ≠ query.destination) :
    trace query table 0 label = none := by
  unfold trace
  rw [if_neg elsewhere]
  cases table[label]? <;> rfl

theorem trace_none (elsewhere : label.node ≠ query.destination) (missing : table[label]? = none) :
    trace query table steps label = none := by
  unfold trace
  rw [if_neg elsewhere, missing]

theorem trace_some {hop : Hop} (elsewhere : label.node ≠ query.destination)
    (found : table[label]? = some hop) : trace query table (steps + 1) label =
      (trace query table steps ⟨hop.channel.destination, query.layer (label.layer - 1)⟩).map
        (hop :: ·) := by
  conv_lhs => unfold trace
  rw [if_neg elsewhere, found]

/-- A trace is a walk of at most as many hops as it may take.  It finds those hops if the walk arrives,
and nothing if that leads no further, or no further is looked. -/
theorem trace_cases (query : Query) (table : ExtTreeMap Label Hop) (steps : Nat) (label : Label) :
    ∃ walked last, Walks query table label walked last ∧ walked.length ≤ steps ∧
      ((last.node = query.destination ∧
          trace query table steps label = some (walked.map Prod.snd)) ∨
        (last.node ≠ query.destination ∧ trace query table steps label = none ∧
          (table[last]? = none ∨ walked.length = steps))) := by
  induction steps generalizing label with
  | zero =>
    refine ⟨[], label, .stay, Nat.le_refl _, ?_⟩
    by_cases here : label.node = query.destination
    · exact .inl ⟨here, trace_destination here⟩
    · exact .inr ⟨here, trace_zero here, .inr rfl⟩
  | succ steps ih =>
    by_cases here : label.node = query.destination
    · exact ⟨[], label, .stay, Nat.zero_le _, .inl ⟨here, trace_destination here⟩⟩
    cases found : table[label]? with
    | none => exact ⟨[], label, .stay, Nat.zero_le _, .inr ⟨here, trace_none here found, .inl found⟩⟩
    | some hop =>
      obtain ⟨walked, last, walks, le, ends⟩ :=
        ih ⟨hop.channel.destination, query.layer (label.layer - 1)⟩
      refine ⟨_, last, .step here found walks, Nat.succ_le_succ le, ?_⟩
      rw [trace_some here found]
      obtain ⟨arrives, htrace⟩ | ⟨elsewhere, htrace, stops⟩ := ends
      · exact .inl ⟨arrives, congrArg (Option.map (hop :: ·)) htrace⟩
      · exact .inr ⟨elsewhere, congrArg (Option.map (hop :: ·)) htrace,
          stops.imp_right (congrArg Nat.succ)⟩

/-- A trace that may take enough hops finds the walk that arrives. -/
theorem Walks.trace_eq (h : Walks query table label walked last)
    (arrives : last.node = query.destination) (enough : walked.length ≤ steps) :
    trace query table steps label = some (walked.map Prod.snd) := by
  induction h generalizing steps with
  | stay => exact trace_destination arrives
  | @step _ _ hop _ elsewhere found _ ih =>
    cases steps with
    | zero => cases enough
    | succ steps =>
      rw [trace_some elsewhere found]
      exact congrArg (Option.map (hop :: ·)) (ih arrives (Nat.le_of_succ_le_succ enough))

/-- What a trace finds are the hops of a walk that arrives. -/
theorem exists_walks_of_trace (h : trace query table steps label = some hops) :
    ∃ walked last, Walks query table label walked last ∧ last.node = query.destination ∧
      walked.length ≤ steps ∧ walked.map Prod.snd = hops := by
  obtain ⟨walked, last, walks, le, ⟨arrives, h'⟩ | ⟨-, h', -⟩⟩ := trace_cases query table steps label
  · exact ⟨walked, last, walks, arrives, le, Option.some.inj (h'.symm.trans h)⟩
  · cases h'.symm.trans h

/-- More steps read the same path off the table. -/
theorem trace_mono {more : Nat} (h : trace query table steps label = some hops) (le : steps ≤ more) :
    trace query table more label = some hops := by
  obtain ⟨walked, last, walks, arrives, within, rfl⟩ := exists_walks_of_trace h
  exact walks.trace_eq arrives (Nat.le_trans within le)

/-- The first hop found is that of the label, and the others follow from where it ends. -/
theorem trace_eq_cons {hop : Hop} (h : trace query table steps label = some (hop :: hops)) :
    label.node ≠ query.destination ∧ table[label]? = some hop ∧ ∃ steps,
      trace query table steps ⟨hop.channel.destination, query.layer (label.layer - 1)⟩ =
        some hops := by
  obtain ⟨walked, last, walks, arrives, -, hwalked⟩ := exists_walks_of_trace h
  cases walks with
  | stay => cases hwalked
  | step elsewhere found walks =>
    cases hwalked
    exact ⟨elsewhere, found, _, walks.trace_eq arrives (Nat.le_refl _)⟩

/-- The hops of an arrival are those of the walk from there to the destination, if there is one. -/
theorem Arrival.path?_eq_some_iff {arrival : Arrival} : arrival.path? query = some hops ↔
    ∃ walked last, Walks query arrival.search.hops ⟨query.source, arrival.layer⟩ walked last ∧
      last.node = query.destination ∧ walked.map Prod.snd = hops := by
  constructor
  · intro h
    obtain ⟨walked, last, walks, arrives, -, hwalked⟩ := exists_walks_of_trace h
    exact ⟨walked, last, walks, arrives, hwalked⟩
  · rintro ⟨walked, last, walks, arrives, rfl⟩
    exact walks.trace_eq arrives (walks.length_le_size arrives)

/-- Reading an arrival is a walk of no more hops than its table has.  If it ends anywhere but at the
destination, no walk leads there. -/
theorem Arrival.path?_cases (query : Query) (arrival : Arrival) : ∃ walked last,
    Walks query arrival.search.hops ⟨query.source, arrival.layer⟩ walked last ∧
    walked.length ≤ arrival.search.hops.size ∧
    ((last.node = query.destination ∧ arrival.path? query = some (walked.map Prod.snd)) ∨
      (last.node ≠ query.destination ∧ arrival.path? query = none ∧
        ∀ walked last, Walks query arrival.search.hops ⟨query.source, arrival.layer⟩ walked last →
          last.node ≠ query.destination)) := by
  obtain ⟨walked, last, walks, le, found | ⟨elsewhere, none, -⟩⟩ :=
    trace_cases query arrival.search.hops arrival.search.hops.size ⟨query.source, arrival.layer⟩
  · exact ⟨walked, last, walks, le, .inl found⟩
  · refine ⟨walked, last, walks, le, .inr ⟨elsewhere, none, fun _ _ walks' arrives => ?_⟩⟩
    have found := Arrival.path?_eq_some_iff.mpr ⟨_, _, walks', arrives, rfl⟩
    cases none.symm.trans found

end Search

end Rebalancing
