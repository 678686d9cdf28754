import Rebalancing.Proofs.Payment.Hex
import Rebalancing.Proofs.Storage.GraphFile

/-!
# Every type is read back from its text

The forms of `Wire` besides those that a stored graph is made of, each read back from the
JSON it is written as: what a Lightning node lists, routes, requests, reports and preimages.
-/

namespace Rebalancing

/-! ## Values that may be missing -/

namespace Json

variable {α : Type} {write : α → Json} {read : Json → Option α}

theorem text?_string (text : String) : (string text).text? = some text := rfl

theorem string_ne_null (text : String) : string text ≠ null := nofun

theorem nat_ne_null (n : Nat) : nat n ≠ null := nofun

/-- A value that may be missing is read back, if its form is not the one of a missing value. -/
theorem nullable?_ofOption (h : ∀ value, read (write value) = some value)
    (ne : ∀ value, write value ≠ .null) (value : Option α) :
    nullable? read (ofOption (value.map write)) = some value := by
  cases value with
  | none => rfl
  | some value =>
    show nullable? read (write value) = some (some value)
    unfold nullable?
    split
    case h_1 heq => exact absurd heq (ne value)
    case h_2 => rw [h, Option.map_some]

theorem isExact_ofOption (h : ∀ value, (write value).IsExact) (value : Option α) :
    (ofOption (value.map write)).IsExact := by
  cases value with
  | none => exact .null
  | some value => exact h value

theorem isExact_map (h : ∀ value, (write value).IsExact) (values : List α) :
    (array (values.map write)).IsExact := by
  refine .array fun item mem => ?_
  obtain ⟨value, -, rfl⟩ := List.mem_map.mp mem
  exact h value

end Json

/-! ## Channels and listings -/

instance : LawfulWire Direction where
  isExact direction := by cases direction <;> exact .nat (by decide)
  ofJson?_toJson direction := by cases direction <;> rfl

instance : LawfulWire ChannelId where
  isExact id := by
    exact Json.isExact_members ⟨.string _, LawfulWire.isExact id.direction⟩
  ofJson?_toJson id := by
    show ChannelId.ofJson? id.toJson = some id
    have hscid : ShortChannelId.ofJson? id.scid.toJson = some id.scid :=
      LawfulWire.ofJson?_toJson id.scid
    have hdirection : Direction.ofJson? id.direction.toJson = some id.direction :=
      LawfulWire.ofJson?_toJson id.direction
    refine Json.read_object rfl (by decide) fun fields given => ?_
    simp only [List.forall_mem_cons] at given
    obtain ⟨scid, direction, -⟩ := given
    simp only [Json.Fields.need, scid, direction, hscid, hdirection, Option.bind_eq_bind,
      Option.bind_some, Option.pure_def]

instance : LawfulWire ListedChannel where
  isExact listed := by
    have hmaximum := Json.isExact_ofOption Json.isExact_uint64 listed.htlcMaximum
    exact Json.isExact_members ⟨.string _, .string _, .string _, Json.isExact_uint64 _,
      Json.isExact_uint64 _, Json.isExact_uint64 _, Json.isExact_uint64 _, hmaximum,
      Json.isExact_uint32 _, .bool _, Json.isExact_uint64 _⟩
  ofJson?_toJson listed := by
    show ListedChannel.ofJson? listed.toJson = some listed
    have hscid : ShortChannelId.ofJson? listed.scid.toJson = some listed.scid :=
      LawfulWire.ofJson?_toJson listed.scid
    have hnode (node : NodeId) : NodeId.ofJson? node.toJson = some node :=
      LawfulWire.ofJson?_toJson node
    have hmaximum := Json.nullable?_ofOption Json.uint64?_nat (fun _ => Json.nat_ne_null _)
      listed.htlcMaximum
    have hactive : Json.bool? (.bool listed.active) = some listed.active := rfl
    refine Json.read_object rfl (by decide) fun fields given => ?_
    simp only [List.forall_mem_cons] at given
    obtain ⟨scid, source, destination, satoshis, baseFee, feePerMillionth, minimum, maximum, delay,
      active, lastUpdate, -⟩ := given
    simp only [Json.Fields.need, Json.Fields.optional, Json.Fields.orDefault, scid, source,
      destination, satoshis, baseFee, feePerMillionth, minimum, maximum, delay, active, lastUpdate,
      hscid, hnode, hmaximum, hactive, Json.uint64?_nat, Json.uint32?_nat, Option.bind_eq_bind,
      Option.bind_some, Option.pure_def]

instance : LawfulWire ListedNode where
  isExact listed := by
    exact Json.isExact_members ⟨.string _, Json.isExact_ofOption .string listed.name⟩
  ofJson?_toJson listed := by
    show ListedNode.ofJson? listed.toJson = some listed
    have hnode : NodeId.ofJson? listed.node.toJson = some listed.node :=
      LawfulWire.ofJson?_toJson listed.node
    have hname := Json.nullable?_ofOption Json.text?_string Json.string_ne_null listed.name
    refine Json.read_object rfl (by decide) fun fields given => ?_
    simp only [List.forall_mem_cons] at given
    obtain ⟨node, name, -⟩ := given
    simp only [Json.Fields.need, Json.Fields.optional, Json.Fields.orDefault, node, name, hnode,
      hname, Option.bind_eq_bind, Option.bind_some, Option.pure_def]

instance : LawfulWire ListedPeer where
  isExact peer := by
    exact Json.isExact_members ⟨.string _, .bool _, Json.isExact_uint32 _,
      Json.isExact_map .string peer.addresses⟩
  ofJson?_toJson peer := by
    show ListedPeer.ofJson? peer.toJson = some peer
    have hid : NodeId.ofJson? peer.id.toJson = some peer.id := LawfulWire.ofJson?_toJson peer.id
    have hconnected : Json.bool? (.bool peer.connected) = some peer.connected := rfl
    have haddresses := Json.list?_map Json.text?_string peer.addresses
    refine Json.read_object rfl (by decide) fun fields given => ?_
    simp only [List.forall_mem_cons] at given
    obtain ⟨id, connected, channels, addresses, -⟩ := given
    simp only [Json.Fields.need, Json.Fields.orDefault, id, connected, channels, addresses, hid,
      hconnected, haddresses, Json.uint32?_nat, Option.bind_eq_bind, Option.bind_some,
      Option.pure_def]

instance : LawfulWire NodeInfo where
  isExact info := by
    exact Json.isExact_members ⟨.string _, Json.isExact_ofOption .string info.name,
      Json.isExact_uint32 _⟩
  ofJson?_toJson info := by
    show NodeInfo.ofJson? info.toJson = some info
    have hid : NodeId.ofJson? info.id.toJson = some info.id := LawfulWire.ofJson?_toJson info.id
    have hname := Json.nullable?_ofOption Json.text?_string Json.string_ne_null info.name
    refine Json.read_object rfl (by decide) fun fields given => ?_
    simp only [List.forall_mem_cons] at given
    obtain ⟨id, name, blockHeight, -⟩ := given
    simp only [Json.Fields.need, Json.Fields.optional, Json.Fields.orDefault, id, name, blockHeight,
      hid, hname, Json.uint32?_nat, Option.bind_eq_bind, Option.bind_some, Option.pure_def]

/-! ## Routes -/

instance : LawfulWire Hop where
  isExact hop := by
    exact Json.isExact_members ⟨hop.channel.isExact_toJson, Json.isExact_uint64 _,
      Json.isExact_uint32 _⟩
  ofJson?_toJson hop := by
    show Hop.ofJson? hop.toJson = some hop
    refine Json.read_object rfl (by decide) fun fields given => ?_
    simp only [List.forall_mem_cons] at given
    obtain ⟨channel, amount, delay, -⟩ := given
    simp only [Json.Fields.need, channel, amount, delay, hop.channel.ofJson?_toJson,
      Json.uint64?_nat, Json.uint32?_nat, Option.bind_eq_bind, Option.bind_some, Option.pure_def]

instance : LawfulWire Route where
  isExact route := by
    have hhop (hop : Hop) : hop.toJson.IsExact := LawfulWire.isExact hop
    exact Json.isExact_members ⟨.string _, .string _, Json.isExact_uint64 _, Json.isExact_uint32 _,
      Json.isExact_map hhop route.hops⟩
  ofJson?_toJson route := by
    show Route.ofJson? route.toJson = some route
    have hnode (node : NodeId) : NodeId.ofJson? node.toJson = some node :=
      LawfulWire.ofJson?_toJson node
    have hhop (hop : Hop) : Hop.ofJson? hop.toJson = some hop := LawfulWire.ofJson?_toJson hop
    have hhops := Json.list?_map hhop route.hops
    refine Json.read_object rfl (by decide) fun fields given => ?_
    simp only [List.forall_mem_cons] at given
    obtain ⟨source, destination, amount, finalDelay, hops, -⟩ := given
    simp only [Json.Fields.need, source, destination, amount, finalDelay, hops, hnode, hhops,
      Json.uint64?_nat, Json.uint32?_nat, Option.bind_eq_bind, Option.bind_some, Option.pure_def]

/-! ## Attempts -/

instance : LawfulWire RebalanceRequest where
  isExact request := by
    exact Json.isExact_members ⟨.string _, .string _, Json.isExact_uint64 _, Json.isExact_uint64 _,
      Json.isExact_uint64 _⟩
  ofJson?_toJson request := by
    show RebalanceRequest.ofJson? request.toJson = some request
    have hscid (scid : ShortChannelId) : ShortChannelId.ofJson? scid.toJson = some scid :=
      LawfulWire.ofJson?_toJson scid
    refine Json.read_object rfl (by decide) fun fields given => ?_
    simp only [List.forall_mem_cons] at given
    obtain ⟨outgoing, incoming, amount, maxPpm, initialMaxHops, -⟩ := given
    simp only [Json.Fields.need, outgoing, incoming, amount, maxPpm, initialMaxHops, hscid,
      Json.uint64?_nat, Option.bind_eq_bind, Option.bind_some, Option.pure_def]

instance : LawfulWire AttemptState where
  isExact state := .string state.name
  ofJson?_toJson state := state.ofName?_name

instance : LawfulWire Preimage where
  isExact preimage := .string preimage.toHex
  ofJson?_toJson preimage := congrArg Except.toOption preimage.ofHex_toHex

/-! ## Settings and counts -/

instance : LawfulWire Aging where
  isExact aging := by
    exact Json.isExact_members ⟨Json.isExact_uint64 _, Json.isExact_uint64 _⟩
  ofJson?_toJson aging := by
    show Aging.ofJson? aging.toJson = some aging
    refine Json.read_object rfl (by decide) fun fields given => ?_
    simp only [List.forall_mem_cons] at given
    obtain ⟨average, variance, -⟩ := given
    simp only [Json.Fields.need, average, variance, Json.uint64?_nat, Option.bind_eq_bind,
      Option.bind_some, Option.pure_def]

/-- A number that a word holds. -/
def IsWord (n : Nat) : Prop := n ≤ 0xffffffffffffffff

namespace IsWord

variable {n : Nat}

theorem isExact (h : IsWord n) : (Json.nat n).IsExact := .nat (Nat.lt_succ_of_le h)

theorem nat?_nat (h : IsWord n) : (Json.nat n).nat? 0xffffffffffffffff = some n := Json.nat?_nat h

end IsWord

/-- Counts of what fits in memory. -/
structure Stats.IsCounted (stats : Stats) : Prop where
  channels : IsWord stats.channels
  nodes : IsWord stats.nodes
  names : IsWord stats.names

structure RefreshSummary.IsCounted (summary : RefreshSummary) : Prop where
  added : IsWord summary.added
  updated : IsWord summary.updated
  skipped : IsWord summary.skipped
  pruned : IsWord summary.pruned

theorem Stats.IsCounted.decode?_encode {stats : Stats} (h : stats.IsCounted) :
    Wire.decode? (Wire.encode stats) = some stats := by
  have exact : stats.toJson.IsExact := by
    exact Json.isExact_members ⟨h.channels.isExact, h.nodes.isExact, h.names.isExact,
      Json.isExact_uint64 _⟩
  have back : Stats.ofJson? stats.toJson = some stats := by
    refine Json.read_object rfl (by decide) fun fields given => ?_
    simp only [List.forall_mem_cons] at given
    obtain ⟨channels, nodes, names, capacity, -⟩ := given
    simp only [Json.Fields.need, channels, nodes, names, capacity, h.channels.nat?_nat,
      h.nodes.nat?_nat, h.names.nat?_nat, Json.uint64?_nat, Option.bind_eq_bind, Option.bind_some,
      Option.pure_def]
  exact Wire.decode?_encode_of exact back

theorem RefreshSummary.IsCounted.decode?_encode {summary : RefreshSummary} (h : summary.IsCounted) :
    Wire.decode? (Wire.encode summary) = some summary := by
  have exact : summary.toJson.IsExact := by
    exact Json.isExact_members ⟨h.added.isExact, h.updated.isExact, h.skipped.isExact,
      h.pruned.isExact⟩
  have back : RefreshSummary.ofJson? summary.toJson = some summary := by
    refine Json.read_object rfl (by decide) fun fields given => ?_
    simp only [List.forall_mem_cons] at given
    obtain ⟨added, updated, skipped, pruned, -⟩ := given
    simp only [Json.Fields.need, added, updated, skipped, pruned, h.added.nat?_nat,
      h.updated.nat?_nat, h.skipped.nat?_nat, h.pruned.nat?_nat, Option.bind_eq_bind,
      Option.bind_some, Option.pure_def]
  exact Wire.decode?_encode_of exact back

namespace Wire

/-- Every value of a type is read back from its text. -/
def ReadsBack (α : Type) [Wire α] : Prop := ∀ value : α, decode? (encode value) = some value

/-- The counts that a word can just hold. -/
def largestStats : Stats := ⟨0xffffffffffffffff, 0xffffffffffffffff, 0xffffffffffffffff, 0⟩

def largestSummary : RefreshSummary :=
  ⟨0xffffffffffffffff, 0xffffffffffffffff, 0xffffffffffffffff, 0xffffffffffffffff⟩

/-- A snapshot with a name that is escaped in its text. -/
def namedSnapshot : Snapshot := ⟨[], (∅ : Names).insert ⟨"02aa"⟩ "\"é\n"⟩

/-- **Round trips.**  Every value of every type is read back from the text it is written as, counts as
far as a word holds them.  So whatever snapshot has been saved is what is loaded. -/
theorem types_readBack :
    (ReadsBack NodeId ∧ ReadsBack ShortChannelId ∧ ReadsBack Direction ∧ ReadsBack ChannelId ∧
      ReadsBack Channel) ∧
    (ReadsBack ListedChannel ∧ ReadsBack ListedNode ∧ ReadsBack ListedPeer ∧ ReadsBack NodeInfo) ∧
    (ReadsBack Hop ∧ ReadsBack Route) ∧
    (ReadsBack Snapshot ∧ ReadsBack Aging ∧
      (∀ stats : Stats, stats.IsCounted → decode? (encode stats) = some stats) ∧
      ∀ summary : RefreshSummary, summary.IsCounted →
        decode? (encode summary) = some summary) ∧
    (ReadsBack RebalanceRequest ∧ ReadsBack AttemptState ∧ ReadsBack Preimage) ∧
    ∀ disk location snapshot saved, GraphFile.save disk location snapshot = (saved, true) →
      GraphFile.load saved location = some snapshot :=
  ⟨⟨decode?_encode, decode?_encode, decode?_encode, decode?_encode, decode?_encode⟩,
    ⟨decode?_encode, decode?_encode, decode?_encode, decode?_encode⟩,
    ⟨decode?_encode, decode?_encode⟩,
    ⟨decode?_encode, decode?_encode, fun _ => Stats.IsCounted.decode?_encode,
      fun _ => RefreshSummary.IsCounted.decode?_encode⟩,
    ⟨decode?_encode, decode?_encode, decode?_encode⟩,
    fun _ _ _ _ => GraphFile.load_save⟩

/-- The largest counts, and a snapshot that is saved on an empty disk. -/
theorem types_readBack_largest :
    decode? (encode largestStats) = some largestStats ∧
    decode? (encode largestSummary) = some largestSummary ∧
    GraphFile.load (GraphFile.save {} ["graph.json"] namedSnapshot).1 ["graph.json"] =
      some namedSnapshot := by
  have word : IsWord 0xffffffffffffffff := Nat.le_refl _
  have saved : (GraphFile.save {} ["graph.json"] namedSnapshot).2 = true := by decide +kernel
  obtain ⟨-, -, -, ⟨-, -, stats, summary⟩, -, loaded⟩ := types_readBack
  exact ⟨stats _ ⟨word, word, word⟩, summary _ ⟨word, word, word, word⟩,
    loaded _ _ _ _ (Prod.ext rfl saved)⟩

end Wire

end Rebalancing
