import Mathlib.Data.List.Forall2
import Rebalancing.Route.Basic

/-!
# Chains of hops

The hops of a route are derived from its channels, the last one first.  What a hop
carries depends on what is delivered behind it: a chain that ends in another chain
delivers what that one is entered with, and delivering more means carrying no less
over every channel.  What enters it is the amount delivered and all its fees, which are
summed exactly here.  Whether hops connect two nodes depends on their channels only.
-/

namespace Rebalancing

namespace Channel

/-- A channel charges no less for a greater amount. -/
theorem fee_mono (channel : Channel) {a b : Msat} (h : a ≤ b) : channel.fee a ≤ channel.fee b := by
  rw [UInt64.le_iff_toNat_le] at h ⊢
  rw [toNat_fee, toNat_fee]
  have : channel.feePerMillionth.toNat * a.toNat / 1000000 ≤
      channel.feePerMillionth.toNat * b.toNat / 1000000 :=
    Nat.div_le_div_right (Nat.mul_le_mul_left _ h)
  omega

/-- A channel that can bear an amount can bear a smaller one, down to its minimum. -/
theorem canUse_of_le {channel : Channel} {a b : Msat} (h : channel.canUse b)
    (least : channel.minHtlc ≤ a) (hle : a ≤ b) : channel.canUse a := by
  rw [canUse_iff] at h ⊢
  exact ⟨least, UInt64.le_trans hle h.2.1, UInt64.le_trans hle h.2.2⟩

end Channel

/-- The fees of all hops, the first one included. -/
def Hop.feeSum : List Hop → Nat
  | [] => 0
  | hop :: hops => (hop.channel.fee hop.amount).toNat + feeSum hops

@[simp] theorem Hop.feeSum_nil : Hop.feeSum [] = 0 := rfl

@[simp] theorem Hop.feeSum_cons (hop : Hop) (hops : List Hop) :
    Hop.feeSum (hop :: hops) = (hop.channel.fee hop.amount).toNat + Hop.feeSum hops := rfl

namespace Route

variable {amount amount' : Msat} {delay delay' : UInt32} {channels : List Channel}
  {node destination : NodeId} {hops front back : List Hop}

theorem chain_cons {channel : Channel} : chain amount delay (channel :: channels) =
    ⟨channel, (entering amount delay (chain amount delay channels)).1,
      (entering amount delay (chain amount delay channels)).2⟩ :: chain amount delay channels := rfl

/-- A chain over two lists of channels delivers, over the first of them, what the second is entered
with. -/
theorem chain_append (front back : List Channel) :
    chain amount delay (front ++ back) =
      chain (entering amount delay (chain amount delay back)).1
        (entering amount delay (chain amount delay back)).2 front ++ chain amount delay back := by
  induction front with
  | nil => rfl
  | cons channel rest ih =>
    have hentering : entering amount delay (chain amount delay (rest ++ back)) =
        entering (entering amount delay (chain amount delay back)).1
          (entering amount delay (chain amount delay back)).2
          (chain (entering amount delay (chain amount delay back)).1
            (entering amount delay (chain amount delay back)).2 rest) := by
      rw [ih]
      cases rest with
      | nil => rfl
      | cons => rfl
    simp only [List.cons_append, chain]
    rw [hentering, ih]

/-- What enters a chain is the amount and all its fees, up to the greatest word. -/
theorem toNat_entering_chain : (entering amount delay (chain amount delay channels)).1.toNat =
    min (amount.toNat + Hop.feeSum (chain amount delay channels)) 0xffffffffffffffff := by
  induction channels with
  | nil =>
    have := amount.toNat_lt
    simp only [chain, entering, Hop.feeSum_nil]
    omega
  | cons channel rest ih =>
    rw [chain_cons, entering, Hop.entering, UInt64.toNat_satAdd, ih, Hop.feeSum_cons]
    omega

/-- Hops over the same channels, one by one, whose amounts are related. -/
def Parallel (R : Msat → Msat → Prop) : List Hop → List Hop → Prop :=
  List.Forall₂ fun hop hop' => hop.channel = hop'.channel ∧ R hop.amount hop'.amount

/-- Two chains over the same channels are parallel if what they deliver is related, and if entering
a channel keeps the relation. -/
theorem parallel_chain {R : Msat → Msat → Prop}
    (enter : ∀ (channel : Channel) a b, R a b →
      R (a.satAdd (channel.fee a)) (b.satAdd (channel.fee b)))
    (h : R amount amount') :
    Parallel R (chain amount delay channels) (chain amount' delay' channels) := by
  induction channels with
  | nil => exact .nil
  | cons channel rest ih =>
    refine .cons ⟨rfl, ?_⟩ ih
    unfold Parallel at ih
    cases hchain : chain amount delay rest with
    | nil =>
      rw [hchain, List.forall₂_nil_left_iff] at ih
      rw [ih]
      exact h
    | cons hop hops =>
      rw [hchain, List.forall₂_cons_left_iff] at ih
      obtain ⟨hop', hops', ⟨hchannel, hamount⟩, -, hchain'⟩ := ih
      rw [hchain']
      simp only [Hop.entering]
      rw [hchannel]
      exact enter _ _ _ hamount

/-- To deliver more, no hop carries less. -/
theorem parallel_chain_of_le (h : amount ≤ amount') :
    Parallel (· ≤ ·) (chain amount delay channels) (chain amount' delay' channels) := by
  refine parallel_chain ?_ h
  intro channel a b h
  exact UInt64.satAdd_le_satAdd h (channel.fee_mono h)

/-- Amounts do not depend on delays. -/
theorem parallel_chain_delay :
    Parallel (· = ·) (chain amount delay channels) (chain amount delay' channels) := by
  refine parallel_chain ?_ rfl
  rintro channel a b rfl
  rfl

/-- Each of the second hops is parallel to one of the first. -/
theorem Parallel.exists_mem {R : Msat → Msat → Prop} {hops hops' : List Hop}
    (h : Parallel R hops hops') {hop' : Hop} (mem : hop' ∈ hops') :
    ∃ hop ∈ hops, hop.channel = hop'.channel ∧ R hop.amount hop'.amount := by
  induction h with
  | nil => cases mem
  | cons related _ ih =>
    rcases List.mem_cons.mp mem with rfl | mem
    · exact ⟨_, List.mem_cons_self, related⟩
    · obtain ⟨hop, hmem, related⟩ := ih mem
      exact ⟨hop, List.mem_cons_of_mem _ hmem, related⟩

/-! ## Connected hops -/

/-- Whether hops connect two nodes depends on their channels only. -/
theorem connects_congr {hops hops' : List Hop}
    (h : hops.map (·.channel) = hops'.map (·.channel)) :
    connects destination node hops = connects destination node hops' := by
  induction hops generalizing node hops' with
  | nil =>
    rw [List.map_nil, eq_comm, List.map_eq_nil_iff] at h
    rw [h]
  | cons hop rest ih =>
    rw [List.map_cons, eq_comm, List.map_eq_cons_iff] at h
    obtain ⟨hop', rest', rfl, hchannel, hrest⟩ := h
    simp only [connects]
    rw [hchannel, ih hrest.symm]

/-- Two lists of hops connect two nodes if they meet somewhere. -/
theorem connects_append : connects destination node (front ++ back) ↔
    ∃ middle, connects middle node front ∧ connects destination middle back := by
  induction front generalizing node with
  | nil => simp [connects]
  | cons hop rest ih =>
    simp only [List.cons_append, connects, Bool.and_eq_true, ih]
    constructor
    · rintro ⟨hsource, middle, hfront, hback⟩
      exact ⟨middle, ⟨hsource, hfront⟩, hback⟩
    · rintro ⟨middle, ⟨hsource, hfront⟩, hback⟩
      exact ⟨hsource, middle, hfront, hback⟩

/-- Each node that connected hops come by is where one of them starts, or where they end. -/
theorem eq_or_mem_source_of_connects (h : connects destination node hops) {visited : NodeId}
    (mem : visited ∈ node :: hops.map (·.channel.destination)) :
    visited = destination ∨ ∃ hop ∈ hops, hop.channel.source = visited := by
  induction hops generalizing node with
  | nil =>
    simp only [connects, decide_eq_true_eq] at h
    left
    simpa [h] using mem
  | cons hop rest ih =>
    simp only [connects, Bool.and_eq_true, decide_eq_true_eq] at h
    rcases List.mem_cons.mp mem with rfl | mem
    · exact .inr ⟨hop, List.mem_cons_self, h.1⟩
    · rcases ih h.2 mem with hvisited | ⟨hop', mem', hsource⟩
      · exact .inl hvisited
      · exact .inr ⟨hop', List.mem_cons_of_mem _ mem', hsource⟩

end Route

end Rebalancing
