import Rebalancing.Proofs.Graph.Index

/-!
# Adjacency without empty buckets

Linking and unlinking change one edge of an adjacency and leave all others alone, and they
never leave a node without peers or an edge without channels behind (`Links.IsTrim`).  Such
an adjacency is determined by what is on its edges.
-/

namespace Rebalancing

open Std

namespace Links

variable {links links' : Links} {a b a' b' : NodeId} {scid scid' : ShortChannelId}

theorem edge_eq : links.edge a b = (links[a]?.bind fun peers => peers[b]?).getD ∅ := by
  rw [edge, ExtTreeMap.getD_eq_getD_getElem?, ExtTreeMap.getD_eq_getD_getElem?]
  cases links[a]? <;> simp

theorem getElem?_link : (links.link a b scid)[a']? =
    if a' = a then some ((links[a]?.getD ∅).alter b fun edge => some ((edge.getD ∅).insert scid))
    else links[a']? := by
  rw [link, ExtTreeMap.getElem?_alter]
  by_cases h : a = a'
  · simp [h]
  · simp [h, Ne.symm h]

theorem getElem?_unlink : (links.unlink a b scid)[a']? =
    if a' = a then links[a]?.bind fun peers =>
      nonemptyPeers? (peers.alter b fun edge => edge.bind fun edge => nonemptyEdge? (edge.erase scid))
    else links[a']? := by
  rw [unlink, ExtTreeMap.getElem?_alter]
  by_cases h : a = a'
  · simp [h]
  · simp [h, Ne.symm h]

theorem nonemptyEdge?_eq_some {edge edge' : Edge} :
    nonemptyEdge? edge = some edge' ↔ edge = edge' ∧ edge' ≠ ∅ := by
  unfold nonemptyEdge?
  split
  next h =>
    rw [ExtTreeSet.isEmpty_iff] at h
    simp [h, eq_comm]
  next h =>
    rw [ExtTreeSet.isEmpty_iff] at h
    simp only [Option.some.injEq]
    exact ⟨fun same => ⟨same, same ▸ h⟩, fun same => same.1⟩

theorem nonemptyPeers?_eq_some {peers peers' : ExtTreeMap NodeId Edge} :
    nonemptyPeers? peers = some peers' ↔ peers = peers' ∧ peers' ≠ ∅ := by
  unfold nonemptyPeers?
  split
  next h =>
    rw [ExtTreeMap.isEmpty_iff] at h
    simp [h, eq_comm]
  next h =>
    rw [ExtTreeMap.isEmpty_iff] at h
    simp only [Option.some.injEq]
    exact ⟨fun same => ⟨same, same ▸ h⟩, fun same => same.1⟩

/-- Unlinking an id takes it out of one edge and leaves all others alone. -/
theorem edge_unlink : (links.unlink a b scid).edge a' b' =
    if a' = a ∧ b' = b then (links.edge a b).erase scid else links.edge a' b' := by
  have dropped (peers : ExtTreeMap NodeId Edge) :
      ((nonemptyPeers? peers).bind fun peers => peers[b']?) = peers[b']? := by
    unfold nonemptyPeers?
    split
    next h => simp [ExtTreeMap.isEmpty_iff.mp h]
    next => rfl
  have emptied (edge : Edge) : (nonemptyEdge? edge).getD ∅ = edge := by
    unfold nonemptyEdge?
    split
    next h => simp [ExtTreeSet.isEmpty_iff.mp h]
    next => rfl
  rw [edge_eq, edge_eq, edge_eq, getElem?_unlink]
  by_cases ha : a' = a
  · subst ha
    rw [if_pos rfl]
    cases hpeers : links[a']? with
    | none => simp
    | some peers =>
      simp only [Option.bind_some, dropped, ExtTreeMap.getElem?_alter, true_and]
      by_cases hb : b' = b
      · subst hb
        cases hedge : peers[b']? <;> simp [emptied]
      · simp [hb, Ne.symm hb]
  · simp [ha]

theorem mem_edge_unlink : scid' ∈ (links.unlink a b scid).edge a' b' ↔
    ¬ (a' = a ∧ b' = b ∧ scid' = scid) ∧ scid' ∈ links.edge a' b' := by
  rw [edge_unlink]
  split
  next h =>
    obtain ⟨rfl, rfl⟩ := h
    rw [ExtTreeSet.mem_erase, ne_eq, LawfulEqCmp.compare_eq_iff_eq, eq_comm]
    simp
  next h => tauto

/-- No node is without peers, and no edge without channels. -/
structure IsTrim (links : Links) : Prop where
  peers_ne_empty : ∀ (a : NodeId) (peers : ExtTreeMap NodeId Edge), links[a]? = some peers → peers ≠ ∅
  edge_ne_empty : ∀ (a b : NodeId) (peers : ExtTreeMap NodeId Edge) (edge : Edge),
    links[a]? = some peers → peers[b]? = some edge → edge ≠ ∅

theorem isTrim_empty : IsTrim (∅ : Links) where
  peers_ne_empty := by simp
  edge_ne_empty := by simp

theorem IsTrim.link (trim : links.IsTrim) : (links.link a b scid).IsTrim := by
  constructor
  · intro a' peers h
    rw [getElem?_link] at h
    split at h
    next =>
      cases h
      intro empty
      have hb := congrArg (fun peers : ExtTreeMap NodeId Edge => peers[b]?) empty
      simp at hb
    next => exact trim.peers_ne_empty a' peers h
  · intro a' b' peers edge h h'
    rw [getElem?_link] at h
    split at h
    next =>
      cases h
      rw [ExtTreeMap.getElem?_alter] at h'
      split at h'
      next =>
        cases h'
        intro empty
        have hscid : scid ∈ ((links[a]?.getD ∅)[b]?.getD ∅).insert scid := ExtTreeSet.mem_insert_self
        rw [empty] at hscid
        exact ExtTreeSet.not_mem_empty hscid
      next =>
        cases hpeers : links[a]? with
        | none =>
          rw [hpeers] at h'
          simp at h'
        | some peers =>
          rw [hpeers] at h'
          exact trim.edge_ne_empty a b' peers edge hpeers h'
    next => exact trim.edge_ne_empty a' b' peers edge h h'

theorem IsTrim.unlink (trim : links.IsTrim) : (links.unlink a b scid).IsTrim := by
  constructor
  · intro a' peers h
    rw [getElem?_unlink] at h
    split at h
    next =>
      obtain ⟨_, -, h⟩ := Option.bind_eq_some_iff.mp h
      exact (nonemptyPeers?_eq_some.mp h).2
    next => exact trim.peers_ne_empty a' peers h
  · intro a' b' peers edge h h'
    rw [getElem?_unlink] at h
    split at h
    next =>
      obtain ⟨before, hbefore, h⟩ := Option.bind_eq_some_iff.mp h
      obtain ⟨rfl, -⟩ := nonemptyPeers?_eq_some.mp h
      rw [ExtTreeMap.getElem?_alter] at h'
      split at h'
      next =>
        obtain ⟨_, -, h'⟩ := Option.bind_eq_some_iff.mp h'
        exact (nonemptyEdge?_eq_some.mp h').2
      next => exact trim.edge_ne_empty a b' before edge hbefore h'
    next => exact trim.edge_ne_empty a' b' peers edge h h'

/-- A node with an edge that is not empty is known. -/
theorem mem_of_mem_edge (h : scid ∈ links.edge a b) : a ∈ links := by
  rw [ExtTreeMap.mem_iff_isSome_getElem?]
  cases hpeers : links[a]? with
  | some peers => rfl
  | none =>
    rw [edge_eq, hpeers] at h
    exact absurd h ExtTreeSet.not_mem_empty

/-- In a trim adjacency every node that is known has one. -/
theorem IsTrim.exists_mem_edge (trim : links.IsTrim) (known : a ∈ links) :
    ∃ b scid, scid ∈ links.edge a b := by
  obtain ⟨peers, hpeers⟩ := Option.isSome_iff_exists.mp (ExtTreeMap.mem_iff_isSome_getElem?.mp known)
  have hne := trim.peers_ne_empty a peers hpeers
  rw [ne_eq, ExtTreeMap.eq_empty_iff_forall_not_mem, not_forall_not] at hne
  obtain ⟨b, hb⟩ := hne
  obtain ⟨edge, hedge⟩ := Option.isSome_iff_exists.mp (ExtTreeMap.mem_iff_isSome_getElem?.mp hb)
  have hne := trim.edge_ne_empty a b peers edge hpeers hedge
  rw [ne_eq, ExtTreeSet.eq_empty_iff_forall_not_mem, not_forall_not] at hne
  obtain ⟨scid, hscid⟩ := hne
  refine ⟨b, scid, ?_⟩
  rw [edge_eq, hpeers, Option.bind_some, hedge]
  exact hscid

/-- What is stored for two nodes is their edge, unless that is empty. -/
theorem IsTrim.bind_eq (trim : links.IsTrim) (a b : NodeId) :
    (links[a]?.bind fun peers => peers[b]?) = nonemptyEdge? (links.edge a b) := by
  rw [edge_eq]
  cases hedge : links[a]?.bind fun peers => peers[b]? with
  | none => rfl
  | some edge =>
    obtain ⟨peers, hpeers, h⟩ := Option.bind_eq_some_iff.mp hedge
    exact (nonemptyEdge?_eq_some.mpr ⟨rfl, trim.edge_ne_empty a b peers edge hpeers h⟩).symm

/-- Trim adjacencies with the same edges are the same. -/
theorem IsTrim.ext (trim : links.IsTrim) (trim' : links'.IsTrim)
    (same : ∀ a b scid, scid ∈ links.edge a b ↔ scid ∈ links'.edge a b) : links = links' := by
  apply ExtTreeMap.ext_getElem?
  intro a
  have edges : ∀ b : NodeId, (links[a]?.bind fun peers => peers[b]?) =
      links'[a]?.bind fun peers => peers[b]? := by
    intro b
    rw [trim.bind_eq, trim'.bind_eq, ExtTreeSet.ext_mem (same a b)]
  have unstored : ∀ peers : ExtTreeMap NodeId Edge, (∀ b, peers[b]? = none) → peers = ∅ :=
    fun peers none => ExtTreeMap.ext_getElem? fun b => by rw [none b]; rfl
  cases h : links[a]? with
  | none =>
    cases h' : links'[a]? with
    | none => rfl
    | some peers =>
      rw [h, h'] at edges
      exact absurd (unstored peers fun b => (edges b).symm) (trim'.peers_ne_empty a peers h')
  | some peers =>
    cases h' : links'[a]? with
    | none =>
      rw [h, h'] at edges
      exact absurd (unstored peers edges) (trim.peers_ne_empty a peers h)
    | some peers' =>
      rw [h, h'] at edges
      exact congrArg some (ExtTreeMap.ext_getElem? edges)

end Links

end Rebalancing
