import TorrentNG.DhtNodes
import TorrentNG.SortedSlices

/-!
# The routing tables

A routing table has 160 buckets of at most 8 nodes. A node is entered in the bucket of its
distance from the local identifier, a known node gets its new address, and a full bucket takes
no more. The tables of the two address families are separate and work alike.

Every bucket keeps few nodes, each at its distance, so that no identifier is stored twice in the
whole table. Distances to any target then differ, and sorting by distance gives the nearest
nodes.
-/

namespace TorrentNG.Dht

open SortedSlices XorMetric

def k : Nat := 8

def bucketCount : Nat := 160

variable {Addr : Type}

/-! ## Buckets -/

structure Bucket (Addr : Type) where
  nodes : List (Node Addr)
deriving DecidableEq

/-- The nodes at the smallest distances, sorted by distance; nodes at one distance can come in
any order. -/
def nearest (nodes : List (Node Addr)) (target : NodeId) (count : Nat) : List (Node Addr) :=
  let candidates := nodes.map fun node => (node, node.id.distance target)
  let sorted := candidates.insertionSort fun first second => first.2 ≤ second.2
  (sorted.take count).map Prod.fst

namespace Bucket

variable (bucket : Bucket Addr)

def isFull : Bool := k ≤ bucket.nodes.length

/-- Give the first node with the identifier a new address. -/
def refresh (node : Node Addr) : List (Node Addr) → Option (List (Node Addr))
  | [] => none
  | existing :: rest =>
    if existing.id = node.id then some ({ existing with addr := node.addr } :: rest)
    else (refresh node rest).map (existing :: ·)

def insert (node : Node Addr) : Bool × Bucket Addr :=
  match refresh node bucket.nodes with
  | some nodes => (false, { nodes })
  | none =>
    if bucket.isFull then (false, bucket)
    else (true, { nodes := bucket.nodes ++ [node] })

def remove (id : NodeId) : Bool × Bucket Addr :=
  let nodes := bucket.nodes.filter fun node => node.id ≠ id
  (nodes.length < bucket.nodes.length, { nodes })

end Bucket

/-! ## Tables -/

structure Table (Addr : Type) where
  localId : NodeId
  buckets : Vector (Bucket Addr) bucketCount
deriving DecidableEq

abbrev RoutingTable := Table SocketAddrV4

abbrev RoutingTable6 := Table SocketAddrV6

namespace Table

def new (localId : NodeId) : Table Addr where
  localId
  buckets := Vector.replicate bucketCount { nodes := [] }

theorem bucketIndex_getD_lt (id other : NodeId) :
    (id.distance other).bucketIndex.getD 0 < bucketCount := by
  rcases id.bucketIndex_distance other with ⟨absent, _⟩ | ⟨index, bounded, found, _⟩
  · rw [absent]
    decide
  · rw [found]
    exact bounded

variable (table : Table Addr)

/-- The index of the bucket, which is within the table for any identifier. -/
def bucketIdx (id : NodeId) : Fin bucketCount :=
  ⟨(table.localId.distance id).bucketIndex.getD 0, bucketIndex_getD_lt _ _⟩

def insert (table : Table Addr) (node : Node Addr) : Bool × Table Addr :=
  if node.id = table.localId then (false, table)
  else
    let idx := table.bucketIdx node.id
    let (inserted, bucket) := (table.buckets.get idx).insert node
    (inserted, { table with buckets := table.buckets.set idx bucket })

def remove (table : Table Addr) (id : NodeId) : Bool × Table Addr :=
  let idx := table.bucketIdx id
  let (removed, bucket) := (table.buckets.get idx).remove id
  (removed, { table with buckets := table.buckets.set idx bucket })

/-- The nodes of all buckets, in the order of the buckets. -/
def nodes (table : Table Addr) : List (Node Addr) := table.buckets.toList.flatMap Bucket.nodes

def closest (target : NodeId) (count : Nat) : List (Node Addr) :=
  nearest table.nodes target count

def totalNodes : Nat :=
  (table.buckets.toList.map fun bucket => bucket.nodes.length).sum

end Table

/-! ## What one call does to a bucket -/

open List

namespace Bucket

variable (bucket : Bucket Addr)

def ids : List NodeId := bucket.nodes.map Node.id

theorem refresh_cases (node : Node Addr) (nodes : List (Node Addr)) :
    refresh node nodes = none ∧ node.id ∉ nodes.map Node.id ∨
      ∃ refreshed, refresh node nodes = some refreshed ∧
        refreshed.map Node.id = nodes.map Node.id := by
  induction nodes with
  | nil => exact .inl ⟨rfl, not_mem_nil⟩
  | cons existing rest ih =>
    rw [refresh]
    split
    next => exact .inr ⟨_, rfl, rfl⟩
    next same =>
      rcases ih with ⟨absent, unlisted⟩ | ⟨refreshed, found, kept⟩
      · refine .inl ⟨by rw [absent]; rfl, ?_⟩
        rw [map_cons, mem_cons, not_or]
        exact ⟨Ne.symm same, unlisted⟩
      · refine .inr ⟨existing :: refreshed, by rw [found]; rfl, ?_⟩
        rw [map_cons, map_cons, kept]

/-- An insertion leaves the identifiers as they are, or there is room for one more. -/
theorem ids_insert (node : Node Addr) :
    (bucket.insert node).2.ids = bucket.ids ∨
      (bucket.insert node).2.ids = bucket.ids ++ [node.id] ∧ node.id ∉ bucket.ids ∧
        bucket.ids.length < k := by
  rw [insert]
  rcases refresh_cases node bucket.nodes with ⟨absent, unlisted⟩ | ⟨refreshed, found, kept⟩
  · rw [absent]
    by_cases full : bucket.isFull = true
    · simp only [if_pos full]
      exact .inl trivial
    · simp only [if_neg full]
      refine .inr ⟨map_append, unlisted, ?_⟩
      rw [isFull, decide_eq_true_iff] at full
      rw [ids, length_map]
      omega
  · rw [found]
    exact .inl kept

theorem ids_remove (id : NodeId) :
    (bucket.remove id).2.ids.Sublist bucket.ids :=
  filter_sublist.map Node.id

end Bucket

/-! ## The invariant -/

namespace Table

/-- The bucket has few nodes, each once, and only those at its distance. -/
structure Holds (localId : NodeId) (index : Fin bucketCount) (ids : List NodeId) : Prop where
  capacity : ids.length ≤ k
  nodup : ids.Nodup
  placed : ∀ id ∈ ids, (localId.distance id).bucketIndex = some index

def Valid (table : Table Addr) : Prop :=
  ∀ index, Holds table.localId index (table.buckets.get index).ids

variable {table : Table Addr}

theorem valid_new (localId : NodeId) : Valid (new localId : Table Addr) := by
  intro index
  have empty : ((new localId : Table Addr).buckets.get index).ids = [] :=
    congrArg Bucket.ids (Vector.getElem_replicate index.isLt)
  rw [empty]
  exact ⟨Nat.zero_le _, nodup_nil, nofun⟩

theorem toList_buckets (table : Table Addr) :
    table.buckets.toList = List.ofFn table.buckets.get := by
  apply ext_getElem
  · simp
  · intro index first second
    simp [Vector.get]

section

variable (valid : Valid table)

include valid

/-- Replacing one bucket by a good one keeps the table good. -/
theorem Valid.set {index : Fin bucketCount} {bucket : Bucket Addr}
    (holds : Holds table.localId index bucket.ids) :
    Valid { table with buckets := table.buckets.set index bucket } := by
  intro other
  have read : ((table.buckets.set index bucket).get other) =
      if index.val = other.val then bucket else table.buckets.get other :=
    Vector.getElem_set index.isLt other.isLt
  simp only [read]
  split
  next same =>
    rw [← Fin.ext same]
    exact holds
  next => exact valid other

theorem Valid.insert (node : Node Addr) : Valid (table.insert node).2 := by
  rw [Table.insert]
  split
  next => exact valid
  next isLocal =>
    refine valid.set ?_
    obtain ⟨capacity, nodup, placed⟩ := valid (table.bucketIdx node.id)
    rcases Bucket.ids_insert (table.buckets.get (table.bucketIdx node.id)) node with
      kept | ⟨added, unlisted, room⟩
    · rw [kept]
      exact ⟨capacity, nodup, placed⟩
    · rw [added]
      refine ⟨?_, ?_, fun id inside => ?_⟩
      · rw [length_append]
        exact room
      · rw [← concat_eq_append]
        exact nodup.concat unlisted
      · rcases mem_append.mp inside with old | new
        · exact placed id old
        · rw [mem_singleton.mp new]
          rcases table.localId.bucketIndex_distance node.id with ⟨_, same⟩ | ⟨index, _, found, _⟩
          · exact absurd same.symm isLocal
          · simp only [bucketIdx, found]
            rfl

theorem Valid.remove (id : NodeId) : Valid (table.remove id).2 := by
  obtain ⟨capacity, nodup, placed⟩ := valid (table.bucketIdx id)
  have fewer := Bucket.ids_remove (table.buckets.get (table.bucketIdx id)) id
  exact valid.set ⟨fewer.length_le.trans capacity, nodup.sublist fewer,
    fun stored inside => placed stored (fewer.subset inside)⟩

/-! ## What a valid table gives -/

theorem Valid.ne_local (index : Fin bucketCount) {node : Node Addr}
    (inside : node ∈ (table.buckets.get index).nodes) : node.id ≠ table.localId := by
  have placed := (valid index).placed node.id (mem_map_of_mem inside)
  rcases table.localId.bucketIndex_distance node.id with ⟨absent, _⟩ | ⟨_, _, _, different⟩
  · exact nomatch absent.symm.trans placed
  · exact different.symm

/-- No identifier is stored twice: two buckets have nodes at different distances. -/
theorem Valid.nodup_ids : (table.nodes.map Node.id).Nodup := by
  have flattened : table.nodes.map Node.id = table.buckets.toList.flatMap Bucket.ids := map_flatMap
  rw [flattened, toList_buckets, nodup_flatMap]
  constructor
  · intro bucket inside
    obtain ⟨index, rfl⟩ := mem_ofFn.mp inside
    exact (valid index).nodup
  · rw [pairwise_ofFn]
    intro first second before id inFirst inSecond
    have placedFirst := (valid first).placed id inFirst
    have placedSecond := (valid second).placed id inSecond
    exact before.ne (Fin.ext (Option.mem_unique placedFirst placedSecond))

end

theorem totalNodes_eq (table : Table Addr) : table.totalNodes = table.nodes.length :=
  length_flatMap.symm

end Table

/-- The numbers of the identifiers are a metric: nodes at one distance from a target are the
same. -/
theorem nearest_smallest {nodes : List (Node Addr)} (nodup : (nodes.map Node.id).Nodup)
    (target : NodeId) (count : Nat) :
    Smallest (fun node => node.id.toNat ^^^ target.toNat) count nodes
      (nearest nodes target count) := by
  let candidates := nodes.map fun node => (node, node.id.distance target)
  let closer := fun first second : Node Addr × Distance => first.2 ≤ second.2
  have total : Std.Total closer := by
    constructor
    intro first second
    simp only [closer, Distance.le_iff_toNat_le]
    exact Nat.le_total _ _
  have transitive : IsTrans (Node Addr × Distance) closer := by
    constructor
    intro first second third
    simp only [closer, Distance.le_iff_toNat_le]
    exact Nat.le_trans
  have perm := perm_insertionSort closer candidates
  have distances : ∀ candidate ∈ candidates.insertionSort closer,
      candidate.2.toNat = candidate.1.id.toNat ^^^ target.toNat := by
    intro candidate inside
    obtain ⟨node, _, rfl⟩ := mem_map.mp (perm.mem_iff.mp inside)
    exact node.id.toNat_distance target
  have sorted : ((candidates.insertionSort closer).map Prod.fst).Pairwise fun first second =>
      first.id.toNat ^^^ target.toNat ≤ second.id.toNat ^^^ target.toNat := by
    rw [pairwise_map]
    refine (pairwise_insertionSort closer candidates).imp_of_mem ?_
    intro first second inFirst inSecond ordered
    rw [← distances first inFirst, ← distances second inSecond]
    exact (Distance.le_iff_toNat_le _ _).mp ordered
  have arranged : ((candidates.insertionSort closer).map Prod.fst).Perm nodes := by
    have mapped := perm.map Prod.fst
    rw [map_map] at mapped
    exact mapped.trans (.of_eq (map_id nodes))
  have distinct : (nodes.map fun node => node.id.toNat ^^^ target.toNat).Nodup := by
    have injective : Function.Injective fun id : NodeId => id.toNat ^^^ target.toNat :=
      fun first second same => NodeId.toNat_inj.mp (Nat.xor_left_inj.mp same)
    have mapped := nodup.map injective
    rw [map_map] at mapped
    exact mapped
  have smallest := smallest_take arranged sorted distinct count
  rw [← map_take] at smallest
  exact smallest

namespace Table

/-- What the callers of a table rely on. -/
structure Sound (localId : NodeId) (table : Table Addr) : Prop where
  isLocal : table.localId = localId
  capacity : ∀ index, (table.buckets.get index).nodes.length ≤ k
  placed : ∀ index, ∀ node ∈ (table.buckets.get index).nodes,
    (localId.distance node.id).bucketIndex = some index ∧
      2 ^ (159 - index.val) ≤ localId.toNat ^^^ node.id.toNat ∧
      localId.toNat ^^^ node.id.toNat < 2 ^ (160 - index.val)
  nodup : (table.nodes.map Node.id).Nodup
  notLocal : ∀ node ∈ table.nodes, node.id ≠ localId
  total : table.totalNodes = table.nodes.length
  closest : ∀ target count,
    Smallest (fun node => node.id.toNat ^^^ target.toNat) count table.nodes
      (table.closest target count)

theorem Valid.sound {table : Table Addr} (valid : Valid table) : Sound table.localId table where
  isLocal := rfl
  capacity := fun index => (length_map _).symm.trans_le (valid index).capacity
  placed := by
    intro index node inside
    have placed := (valid index).placed node.id (mem_map_of_mem inside)
    have leads := Distance.bucketIndex_eq_some_iff.mp placed
    rw [NodeId.toNat_distance] at leads
    exact ⟨placed, leads.2⟩
  nodup := valid.nodup_ids
  notLocal := by
    intro node inside
    obtain ⟨bucket, stored, within⟩ := mem_flatMap.mp inside
    rw [toList_buckets] at stored
    obtain ⟨index, rfl⟩ := mem_ofFn.mp stored
    exact valid.ne_local index within
  total := table.totalNodes_eq
  closest := fun target count => nearest_smallest valid.nodup_ids target count

theorem localId_insert (table : Table Addr) (node : Node Addr) :
    (table.insert node).2.localId = table.localId := by
  rw [insert]
  split
  · rfl
  · rfl

end Table

/-! ## Both tables -/

structure RoutingTables where
  table : RoutingTable
  table6 : RoutingTable6

inductive Operation where
  | insert (node : KNode)
  | remove (id : NodeId)
  | insert6 (node : KNode6)
  | remove6 (id : NodeId)

namespace RoutingTables

def new (localId localId6 : NodeId) : RoutingTables where
  table := .new localId
  table6 := .new localId6

def step (tables : RoutingTables) : Operation → RoutingTables
  | .insert node => { tables with table := (tables.table.insert node).2 }
  | .remove id => { tables with table := (tables.table.remove id).2 }
  | .insert6 node => { tables with table6 := (tables.table6.insert node).2 }
  | .remove6 id => { tables with table6 := (tables.table6.remove id).2 }

/-- Both tables are valid and keep their local identifiers. -/
structure Valid (localId localId6 : NodeId) (tables : RoutingTables) : Prop where
  table : tables.table.Valid
  localId : tables.table.localId = localId
  table6 : tables.table6.Valid
  localId6 : tables.table6.localId = localId6

theorem Valid.step {localId localId6 : NodeId} {tables : RoutingTables}
    (valid : Valid localId localId6 tables) (operation : Operation) :
    Valid localId localId6 (tables.step operation) := by
  obtain ⟨table, isLocal, table6, isLocal6⟩ := valid
  cases operation with
  | insert node =>
    exact ⟨table.insert node, (Table.localId_insert _ node).trans isLocal, table6, isLocal6⟩
  | remove id => exact ⟨table.remove id, isLocal, table6, isLocal6⟩
  | insert6 node =>
    exact ⟨table, isLocal, table6.insert node, (Table.localId_insert _ node).trans isLocal6⟩
  | remove6 id => exact ⟨table, isLocal, table6.remove id, isLocal6⟩

/-- After any calls, both tables are sound. -/
theorem tables_sound (localId localId6 : NodeId) (operations : List Operation) :
    let tables := operations.foldl step (new localId localId6)
    tables.table.Sound localId ∧ tables.table6.Sound localId6 := by
  have valid : Valid localId localId6 (operations.foldl step (new localId localId6)) :=
    List.foldlRecOn operations step
      ⟨Table.valid_new localId, rfl, Table.valid_new localId6, rfl⟩
      fun tables valid operation _ => valid.step operation
  have sound := valid.table.sound
  have sound6 := valid.table6.sound
  rw [valid.localId] at sound
  rw [valid.localId6] at sound6
  exact ⟨sound, sound6⟩

end RoutingTables

end TorrentNG.Dht
