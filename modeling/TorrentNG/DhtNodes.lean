import TorrentNG.XorMetric

/-!
# Node identifiers of the distributed hash table

An identifier is a string of 20 bytes. The distance of two identifiers is their exclusive or,
compared as a byte string, and a distance falls into a bucket by its leading zeros. Read as
numbers of 160 bits, the distance is the exclusive or of the numbers, the order is that of the
numbers, and the bucket says between which powers of two the distance lies.

A node is an identifier and an address; the two address families have nodes of their own.
-/

namespace TorrentNG.Dht

open FixedWidth XorMetric

structure NodeId where
  bytes : List UInt8
  length_bytes : bytes.length = 20
deriving DecidableEq

/-- The distance of two identifiers, for comparison. -/
structure Distance where
  bytes : List UInt8
  length_bytes : bytes.length = 20
deriving DecidableEq

namespace NodeId

def distance (id other : NodeId) : Distance where
  bytes := List.zipWith (· ^^^ ·) id.bytes other.bytes
  length_bytes := by rw [List.length_zipWith, id.length_bytes, other.length_bytes, Nat.min_self]

def leadingZeros (id : NodeId) : Nat := (leadingBit 0 id.bytes).getD 160

end NodeId

namespace Distance

def isZero (distance : Distance) : Bool := distance.bytes.all (· == 0)

/-- The bucket that a distance falls into; identifiers at distance zero are the same. -/
def bucketIndex (distance : Distance) : Option Nat := leadingBit 0 distance.bytes

instance : LE Distance := ⟨fun first second => first.bytes ≤ second.bytes⟩

instance : LT Distance := ⟨fun first second => first.bytes < second.bytes⟩

instance (first second : Distance) : Decidable (first ≤ second) :=
  inferInstanceAs (Decidable (first.bytes ≤ second.bytes))

end Distance

/-! ## Identifiers as numbers -/

def NodeId.toNat (id : NodeId) : Nat := ofBigEndian id.bytes

def Distance.toNat (distance : Distance) : Nat := ofBigEndian distance.bytes

namespace Distance

theorem lt_iff_toNat_lt (first second : Distance) : first < second ↔ first.toNat < second.toNat :=
  lt_iff_ofBigEndian_lt (first.length_bytes.trans second.length_bytes.symm)

theorem le_iff_toNat_le (first second : Distance) : first ≤ second ↔ first.toNat ≤ second.toNat := by
  refine List.not_lt.symm.trans ((not_congr (lt_iff_toNat_lt second first)).trans Nat.not_lt)

/-- A distance is in the bucket of its leading zeros, or it is zero. -/
theorem bucketIndex_spec (distance : Distance) : distance.bucketIndex = none ∧ distance.toNat = 0 ∨
      ∃ index, distance.bucketIndex = some index ∧ Leads 160 index distance.toNat := by
  rcases leadingBit_spec 0 distance.bytes with ⟨absent, zero⟩ | ⟨zeros, found, leads⟩
  · exact .inl ⟨absent, zero⟩
  · rw [Nat.zero_mul, Nat.zero_add] at found
    rw [distance.length_bytes] at leads
    exact .inr ⟨zeros, found, leads⟩

/-- A bucket has the distances between two powers of two. -/
theorem bucketIndex_eq_some_iff {distance : Distance} {index : Nat} :
    distance.bucketIndex = some index ↔ Leads 160 index distance.toNat := by
  rcases distance.bucketIndex_spec with ⟨absent, zero⟩ | ⟨zeros, found, leads⟩
  · refine iff_of_false (fun found => nomatch absent.symm.trans found) fun leads => ?_
    have positive := Nat.two_pow_pos (160 - 1 - index)
    have lower := leads.2.1
    omega
  · rw [found, Option.some.injEq]
    exact ⟨fun same => same ▸ leads, fun also => leads.unique also⟩

end Distance

namespace NodeId

theorem toNat_inj {id other : NodeId} : id.toNat = other.toNat ↔ id = other := by
  rw [toNat, toNat, ofBigEndian_inj (id.length_bytes.trans other.length_bytes.symm)]
  exact ⟨fun same => by cases id; cases other; cases same; rfl, congrArg _⟩

theorem toNat_distance (id other : NodeId) : (id.distance other).toNat = id.toNat ^^^ other.toNat :=
  ofBigEndian_xor (id.length_bytes.trans other.length_bytes.symm)

/-- The bucket of an identifier is below 160, or there is none for the same identifier. -/
theorem bucketIndex_distance (id other : NodeId) :
    (id.distance other).bucketIndex = none ∧ id = other ∨
      ∃ index < 160, (id.distance other).bucketIndex = some index ∧ id ≠ other := by
  rcases (id.distance other).bucketIndex_spec with ⟨absent, zero⟩ | ⟨index, found, leads⟩
  · rw [toNat_distance, Nat.xor_eq_zero_iff, toNat_inj] at zero
    exact .inl ⟨absent, zero⟩
  · refine .inr ⟨index, leads.1, found, ?_⟩
    rintro rfl
    have positive := Nat.two_pow_pos (160 - 1 - index)
    have lower := leads.2.1
    rw [toNat_distance, Nat.xor_self] at lower
    omega

end NodeId

/-! ## Addresses -/

structure Ipv4Addr where
  octets : List UInt8
  length_octets : octets.length = 4
deriving DecidableEq

structure Ipv6Addr where
  octets : List UInt8
  length_octets : octets.length = 16
deriving DecidableEq

structure SocketAddrV4 where
  ip : Ipv4Addr
  port : UInt16
deriving DecidableEq

structure SocketAddrV6 where
  ip : Ipv6Addr
  port : UInt16
  flowinfo : UInt32
  scopeId : UInt32
deriving DecidableEq

/-- A node with an address of either family. -/
structure Node (Addr : Type) where
  id : NodeId
  addr : Addr
deriving DecidableEq

abbrev KNode := Node SocketAddrV4

abbrev KNode6 := Node SocketAddrV6

end TorrentNG.Dht
