import TorrentNG.BencodeReaders

/-!
# The decoder accepts exactly the canonical encodings

By induction on the fuel, an accepted value stands encoded where it was read and is
within the limits. By induction on the value, an encoding within the limits is
accepted. The fuel of the model is shown to be enough for every input, which makes
the decoder a total function with the outcomes of the source only.
-/

namespace TorrentNG.Bencode

open BValue Decimal Fallible List MachineArithmetic Reading

variable {input : Bytes}

namespace Decoder

section Runs
variable {σ : Type}

/-- What a successful `decode_value` has established about its result. -/
structure Decoded (decoder : Decoder) (depth : Nat) (cursor : Cursor σ) (value : BValue)
    (after : Cursor σ) : Prop where
  read : Reads decoder.input cursor.pos (encode value) after.pos
  strings : value.StringsWithin decoder.maxString
  sorted : decoder.strictDictKeys = true → value.Sorted
  nested : depth + value.nesting ≤ decoder.maxDepth
  counted : after.nodes = cursor.nodes + value.nodeCount
  bounded : after.nodes ≤ decoder.maxNodes

/-- What the list loop has established about the items it added. -/
structure DecodedItems (decoder : Decoder) (depth : Nat) (cursor : Cursor σ)
    (added : List BValue) (after : Cursor σ) : Prop where
  read : Reads decoder.input cursor.pos (encodeItems added) after.pos
  strings : StringsWithinItems decoder.maxString added
  sorted : decoder.strictDictKeys = true → SortedItems added
  nested : depth + nestingItems added ≤ decoder.maxDepth
  counted : after.nodes = cursor.nodes + nodeCountItems added
  bounded : after.nodes ≤ decoder.maxNodes

/-- What the dictionary loop has established about the pairs it added. -/
structure DecodedPairs (decoder : Decoder) (depth : Nat) (cursor : Cursor σ)
    (lastKey : Option Bytes) (added : Pairs) (after : Cursor σ) :
    Prop where
  read : Reads decoder.input cursor.pos (encodePairs added) after.pos
  strings : StringsWithinPairs decoder.maxString added
  sorted : decoder.strictDictKeys = true → SortedPairs added
  increasing : decoder.strictDictKeys = true →
    (lastKey.toList ++ added.map Prod.fst).IsChain (· < ·)
  nested : depth + nestingPairs added ≤ decoder.maxDepth
  counted : after.nodes = cursor.nodes + nodeCountPairs added
  bounded : after.nodes ≤ decoder.maxNodes

section Soundness
variable (decoder : Decoder) (reserve : Reservation σ) (fuel : Nat)

/-- Accepted values are established with this much fuel. -/
def ValuesSound : Prop :=
  ∀ depth (cursor after : Cursor σ) value,
    decodeValue decoder reserve fuel depth cursor = .ok (value, after) →
      Decoded decoder depth cursor value after

def ItemsSound : Prop :=
  ∀ depth (cursor after : Cursor σ) items capacity result,
    depth ≤ decoder.maxDepth → cursor.nodes ≤ decoder.maxNodes →
    decodeItems decoder reserve fuel depth cursor items capacity = .ok (result, after) →
      ∃ added, result = items ++ added ∧ DecodedItems decoder depth cursor added after

def PairsSound : Prop :=
  ∀ depth (cursor after : Cursor σ) pairs lastKey capacity result,
    depth ≤ decoder.maxDepth → cursor.nodes ≤ decoder.maxNodes →
    decodePairs decoder reserve fuel depth cursor pairs lastKey capacity = .ok (result, after) →
      ∃ added, result = pairs ++ added ∧ DecodedPairs decoder depth cursor lastKey added after

variable {decoder reserve} {fuel : Nat}

theorem itemsSound_step (values : ValuesSound decoder reserve fuel)
    (items : ItemsSound decoder reserve fuel) : ItemsSound decoder reserve (fuel + 1) := by
  intro depth cursor after before capacity result shallow few decoded
  rw [decodeItems_eq_ok] at decoded
  obtain ⟨found, rfl, rfl⟩ | ⟨_, _, _, grown, budget, item, next, _, first, rest⟩ := decoded
  · have inside := (List.getElem?_eq_some_iff.mp found).1
    exact ⟨[], by simp, reads_nil.mpr ⟨rfl, inside.le⟩, trivial, fun _ => trivial,
      shallow, rfl, few⟩
  · have head := values _ _ _ _ first
    obtain ⟨added, rfl, tail⟩ := items _ _ _ _ _ _ shallow head.bounded rest
    refine ⟨item :: added, by simp, reads_append.mpr ⟨_, head.read, tail.read⟩,
      ⟨head.strings, tail.strings⟩, fun strict => ⟨head.sorted strict, tail.sorted strict⟩,
      ?_, ?_, tail.bounded⟩
    · have deeper := head.nested
      have beside := tail.nested
      rw [nestingItems]
      omega
    · rw [tail.counted, head.counted, nodeCountItems, Nat.add_assoc]

theorem pairsSound_step (values : ValuesSound decoder reserve fuel)
    (pairs : PairsSound decoder reserve fuel) : PairsSound decoder reserve (fuel + 1) := by
  intro depth cursor after before lastKey capacity result shallow few decoded
  rw [decodePairs_eq_ok] at decoded
  obtain ⟨found, rfl, rfl⟩ | ⟨_, _, _, key, pos, grown, budget, value, next, ⟨short, _, keyRead⟩,
    ordered, _, first, rest⟩ := decoded
  · have inside := (List.getElem?_eq_some_iff.mp found).1
    refine ⟨[], by simp, reads_nil.mpr ⟨rfl, inside.le⟩, trivial, fun _ => trivial,
      ?_, shallow, rfl, few⟩
    intro _
    cases lastKey <;> simp
  · have head := values _ _ _ _ first
    obtain ⟨added, rfl, tail⟩ := pairs _ _ _ _ _ _ _ shallow head.bounded rest
    refine ⟨(key, value) :: added, by simp, ?_, ⟨short, head.strings, tail.strings⟩,
      fun strict => ⟨head.sorted strict, tail.sorted strict⟩, ?_, ?_, ?_, tail.bounded⟩
    · rw [encodePairs, reads_append]
      exact ⟨pos, keyRead, reads_append.mpr ⟨_, head.read, tail.read⟩⟩
    · intro strict
      have following := tail.increasing strict
      cases lastKey with
      | none => exact following
      | some previous => exact List.IsChain.cons_cons (ordered strict previous rfl) following
    · have deeper := head.nested
      have beside := tail.nested
      rw [nestingPairs]
      omega
    · rw [tail.counted, head.counted, nodeCountPairs, Nat.add_assoc]

theorem valuesSound_step (items : ItemsSound decoder reserve fuel)
    (pairs : PairsSound decoder reserve fuel) : ValuesSound decoder reserve (fuel + 1) := by
  intro depth cursor after value decoded
  obtain ⟨shallow, few, _, dispatched⟩ := decodeValue_eq_ok.mp decoded
  cases value with
  | int number =>
    obtain ⟨read, kept⟩ := dispatched
    have nodes : after.nodes = cursor.nodes + 1 := by rw [kept]
    exact ⟨read, trivial, fun _ => trivial, shallow, nodes, nodes ▸ few⟩
  | bytes content =>
    obtain ⟨short, _, read, kept⟩ := dispatched
    have nodes : after.nodes = cursor.nodes + 1 := by rw [kept]
    exact ⟨read, short, fun _ => trivial, shallow, nodes, nodes ▸ few⟩
  | list content =>
    obtain ⟨opened, inner, looped, closed, rfl⟩ := enclosed_eq_ok.mp dispatched
    obtain ⟨added, rfl, inside⟩ := items _ _ _ _ _ _ shallow few looped
    refine ⟨?_, inside.strings, inside.sorted, inside.nested, ?_, inside.bounded⟩
    · rw [encode, reads_cons, reads_append]
      exact ⟨opened, _, inside.read, reads_singleton.mpr ⟨closed, rfl⟩⟩
    · have counted := inside.counted
      rw [nodeCount]
      dsimp only at counted ⊢
      omega
  | dict content =>
    obtain ⟨opened, inner, looped, closed, rfl⟩ := enclosed_eq_ok.mp dispatched
    obtain ⟨added, rfl, inside⟩ := pairs _ _ _ _ _ _ _ shallow few looped
    refine ⟨?_, inside.strings, ?_, inside.nested, ?_, inside.bounded⟩
    · rw [encode, reads_cons, reads_append]
      exact ⟨opened, _, inside.read, reads_singleton.mpr ⟨closed, rfl⟩⟩
    · intro strict
      exact ⟨isChain_iff_pairwise.mp (inside.increasing strict), inside.sorted strict⟩
    · have counted := inside.counted
      rw [nodeCount]
      dsimp only at counted ⊢
      omega

/-- Whatever the fuel, an accepted value stands encoded where it was read. -/
theorem runs_sound (decoder : Decoder) (reserve : Reservation σ) (fuel : Nat) :
    ValuesSound decoder reserve fuel ∧ ItemsSound decoder reserve fuel ∧
      PairsSound decoder reserve fuel := by
  induction fuel with
  | zero =>
    refine ⟨?_, ?_, ?_⟩
    · intro _ _ _ _ decoded
      simp [decodeValue] at decoded
    · intro _ _ _ _ _ _ _ _ decoded
      simp [decodeItems] at decoded
    · intro _ _ _ _ _ _ _ _ _ decoded
      simp [decodePairs] at decoded
  | succ fuel ih =>
    obtain ⟨values, items, pairs⟩ := ih
    exact ⟨valuesSound_step items pairs, itemsSound_step values items, pairsSound_step values pairs⟩

end Soundness

/-- No encoding starts with the closing marker. -/
theorem encode_head (value : BValue) : ∃ first rest, encode value = first :: rest ∧ first ≠ 101 := by
  cases value with
  | int number => exact ⟨105, _, rfl, by decide⟩
  | bytes content =>
    obtain ⟨first, rest, shape, digit⟩ := encodeString_head content
    refine ⟨first, rest, shape, ?_⟩
    rintro rfl
    exact absurd digit (by decide)
  | list items => exact ⟨108, _, rfl, by decide⟩
  | dict pairs => exact ⟨100, _, rfl, by decide⟩

/-- A value in the input starts with a byte that closes nothing, and ends behind it. -/
theorem encode_starts {start stop : Nat} (value : BValue)
    (read : Reads input start (encode value) stop) :
    ∃ first, input[start]? = some first ∧ first ≠ 101 ∧ start < stop := by
  obtain ⟨first, rest, shape, open_⟩ := encode_head value
  rw [shape] at read
  exact ⟨first, read.head.1, open_, read.head.2⟩

variable {value : BValue}

/-- Every value consumes input. -/
theorem Decoded.advances {decoder : Decoder} {depth : Nat} {cursor after : Cursor σ}
    (decoded : Decoded decoder depth cursor value after) :
    cursor.pos < after.pos := by
  obtain ⟨_, _, _, advanced⟩ := encode_starts value decoded.read
  exact advanced

variable (decoder : Decoder)

theorem enclosed_settles {α : Type} {enough : Prop} (opening : UInt8)
    {loop : Cursor σ → Except (Stop BencodeError) (α × Cursor σ)} {cursor : Cursor σ}
    (settles : Settles enough (fun _ => True) (loop { cursor with pos := cursor.pos + 1 })) :
    Settles enough (fun _ => True) (decoder.enclosed opening loop cursor) := by
  apply settles_lift_bind
  intro inner opened
  rw [expect_eq_ok, reads_singleton] at opened
  obtain ⟨_, rfl⟩ := opened
  refine settles.bind id ?_
  intro content _ _
  apply settles_lift_bind
  exact fun _ _ => trivial

variable (reserve : Reservation σ)

/-- The fuel covers the rest of the input: two steps for each byte, as a value opens
a loop and the loop decodes a value. -/
theorem runs_settle (fuel : Nat) :
    (∀ depth (cursor : Cursor σ), Settles (2 * (decoder.input.length - cursor.pos) + 2 ≤ fuel)
      (fun _ => True) (decodeValue decoder reserve fuel depth cursor)) ∧
    (∀ depth (cursor : Cursor σ) items capacity,
      Settles (2 * (decoder.input.length - cursor.pos) + 3 ≤ fuel) (fun _ => True)
        (decodeItems decoder reserve fuel depth cursor items capacity)) ∧
    (∀ depth (cursor : Cursor σ) pairs lastKey capacity,
      Settles (2 * (decoder.input.length - cursor.pos) + 3 ≤ fuel) (fun _ => True)
        (decodePairs decoder reserve fuel depth cursor pairs lastKey capacity)) := by
  induction fuel with
  | zero =>
    simp only [decodeValue, decodeItems, decodePairs, Settles]
    exact ⟨by omega, by omega, by omega⟩
  | succ fuel ih =>
    obtain ⟨values, items, pairs⟩ := ih
    obtain ⟨sound, _, _⟩ := runs_sound decoder reserve fuel
    refine ⟨?_, ?_, ?_⟩
    · intro depth cursor
      rw [decodeValue]
      apply settles_lift_bind
      intro entered checked
      rw [enter_eq_ok] at checked
      obtain ⟨_, _, _, rfl⟩ := checked
      apply settles_lift_bind
      intro byte found
      rw [peek_eq_ok] at found
      have inside := (List.getElem?_eq_some_iff.mp found).1
      dsimp only at inside
      split_ifs
      · exact settles_lift_bind fun _ _ => trivial
      · refine (enclosed_settles _ _ (items _ _ _ _)).bind ?_ (fun _ _ _ => trivial)
        dsimp only
        omega
      · refine (enclosed_settles _ _ (pairs _ _ _ _ _)).bind ?_ (fun _ _ _ => trivial)
        dsimp only
        omega
      · exact settles_lift_bind fun _ _ => trivial
      · trivial
    · intro depth cursor before capacity
      rw [decodeItems]
      apply settles_lift_bind
      intro byte _
      split_ifs
      · trivial
      · apply settles_lift_bind
        rintro ⟨grown, budget⟩ _
        refine (values _ _).bind (by dsimp only; omega) ?_
        rintro ⟨item, next⟩ decoded _
        have advanced := (sound _ _ _ _ decoded).advances
        have inside := (sound _ _ _ _ decoded).read.inside
        dsimp only at advanced
        exact (items _ _ _ _).mono (by omega) fun _ => id
    · intro depth cursor before lastKey capacity
      rw [decodePairs]
      apply settles_lift_bind
      intro byte _
      split_ifs
      · trivial
      · apply settles_lift_bind
        rintro ⟨key, pos⟩ read
        rw [decodeBytes_eq_ok] at read
        have keyEnds := read.2.2.1
        apply settles_lift_bind
        rintro _ _
        apply settles_lift_bind
        rintro ⟨grown, budget⟩ _
        refine (values _ _).bind (by dsimp only; omega) ?_
        rintro ⟨value, next⟩ decoded _
        have advanced := (sound _ _ _ _ decoded).advances
        have inside := (sound _ _ _ _ decoded).read.inside
        dsimp only at advanced
        exact (pairs _ _ _ _ _).mono (by omega) fun _ => id

section Completeness

/-- The callback grants every request. -/
def Granting (reserve : Reservation σ) : Prop :=
  ∀ bytes budget, (reserve bytes budget).1 = true

/-- A granted growth succeeds: only a full buffer grows, to at most twice its length. -/
theorem reserveVecGrowth_granted {reserve : Reservation σ} (granting : Granting reserve)
    (elementBytes length capacity : Nat) (budget : σ) (small : elementBytes ≤ pairBytes)
    (short : length < 2 ^ 50) :
    ∃ grown rest, reserveVecGrowth reserve elementBytes length capacity budget =
      .ok (grown, rest) := by
  unfold reserveVecGrowth
  by_cases room : length < capacity
  · exact ⟨capacity, budget, by rw [if_pos room]⟩
  · rw [if_neg room, checkedAdd_of_lt (by omega)]
    have doubled : max (saturatingMul capacity 2) (length + 1) ≤ 2 * length + 1 := by
      unfold saturatingMul
      omega
    have longer : length + 1 ≤ max (saturatingMul capacity 2) (length + 1) := Nat.le_max_right _ _
    simp only [okOr, bind, Except.bind]
    generalize max (saturatingMul capacity 2) (length + 1) = target at doubled longer ⊢
    have bytes : target * elementBytes ≤ (2 * length + 1) * 48 := Nat.mul_le_mul doubled small
    have multiplied : checkedMul target elementBytes = some (target * elementBytes) :=
      checkedMul_of_lt (by omega)
    have additional : checkedSub target length = some (target - length) := if_pos (by omega)
    have fits : ¬target * elementBytes > maxAllocation := by
      unfold maxAllocation
      omega
    simp only [multiplied, additional, if_neg fits]
    by_cases asked : target * elementBytes > 0
    · simp [asked, granting _ _]
    · simp [asked]

variable {decoder : Decoder} {reserve : Reservation σ} (granting : Granting reserve)
  (size : decoder.input.length < 2 ^ 64) (few : decoder.maxNodes < 2 ^ 50)

include granting size few

-- The linter looks at each theorem of the block for itself.
set_option linter.unusedSectionVars false in
mutual

/-- Where an encoding within the limits stands in the input, its value is decoded. -/
theorem decodeValue_complete (value : BValue) (fuel depth : Nat) (cursor : Cursor σ)
    (stop : Nat) (enough : 2 * (decoder.input.length - cursor.pos) + 2 ≤ fuel)
    (read : Reads decoder.input cursor.pos (encode value) stop)
    (strings : value.StringsWithin decoder.maxString) (sorted : value.Sorted)
    (nested : depth + value.nesting ≤ decoder.maxDepth)
    (counted : cursor.nodes + value.nodeCount ≤ decoder.maxNodes) :
    ∃ budget, decodeValue decoder reserve fuel depth cursor =
      .ok (value, ⟨stop, cursor.nodes + value.nodeCount, budget⟩) := by
  have inside := read.inside
  obtain ⟨fuel, rfl⟩ : ∃ left, fuel = left + 1 := ⟨fuel - 1, by omega⟩
  cases value with
  | int number =>
    exact ⟨cursor.budget, decodeValue_eq_ok.mpr ⟨nested, counted, by omega, read, rfl⟩⟩
  | bytes content =>
    exact ⟨cursor.budget, decodeValue_eq_ok.mpr
      ⟨nested, counted, by omega, strings, by dsimp only; omega, read, rfl⟩⟩
  | list items =>
    simp only [nesting, nodeCount] at nested counted ⊢
    rw [encode, reads_cons, reads_append] at read
    obtain ⟨opened, closing, itemsRead, closed⟩ := read
    obtain ⟨found, rfl⟩ := reads_singleton.mp closed
    have start := (List.getElem?_eq_some_iff.mp opened).1
    obtain ⟨budget, looped⟩ := decodeItems_complete items fuel depth 0
      ⟨cursor.pos + 1, cursor.nodes + 1, cursor.budget⟩ [] closing (by dsimp only; omega)
      itemsRead found strings sorted nested (by dsimp only; omega) (by simp)
    refine ⟨budget, decodeValue_eq_ok.mpr ⟨by omega, by omega, by omega, enclosed_eq_ok.mpr
        ⟨opened, _, looped, found, ?_⟩⟩⟩
    rw [Nat.add_assoc]
  | dict pairs =>
    simp only [nesting, nodeCount] at nested counted ⊢
    rw [encode, reads_cons, reads_append] at read
    obtain ⟨opened, closing, pairsRead, closed⟩ := read
    obtain ⟨found, rfl⟩ := reads_singleton.mp closed
    have start := (List.getElem?_eq_some_iff.mp opened).1
    obtain ⟨budget, looped⟩ := decodePairs_complete pairs fuel depth 0
      ⟨cursor.pos + 1, cursor.nodes + 1, cursor.budget⟩ [] none closing (by dsimp only; omega)
      pairsRead found strings sorted.2 sorted.1.isChain nested (by dsimp only; omega) (by simp)
    refine ⟨budget, decodeValue_eq_ok.mpr ⟨by omega, by omega, by omega, enclosed_eq_ok.mpr
        ⟨opened, _, looped, found, ?_⟩⟩⟩
    rw [Nat.add_assoc]

theorem decodeItems_complete (added : List BValue) (fuel depth capacity : Nat)
    (cursor : Cursor σ) (items : List BValue) (stop : Nat)
    (enough : 2 * (decoder.input.length - cursor.pos) + 3 ≤ fuel)
    (read : Reads decoder.input cursor.pos (encodeItems added) stop)
    (closed : decoder.input[stop]? = some 101)
    (strings : StringsWithinItems decoder.maxString added) (sorted : SortedItems added)
    (nested : depth + nestingItems added ≤ decoder.maxDepth)
    (counted : cursor.nodes + nodeCountItems added ≤ decoder.maxNodes)
    (held : items.length ≤ cursor.nodes) :
    ∃ budget, decodeItems decoder reserve fuel depth cursor items capacity =
      .ok (items ++ added, ⟨stop, cursor.nodes + nodeCountItems added, budget⟩) := by
  obtain ⟨fuel, rfl⟩ : ∃ left, fuel = left + 1 := ⟨fuel - 1, by omega⟩
  cases added with
  | nil =>
    obtain ⟨rfl, _⟩ := reads_nil.mp read
    refine ⟨cursor.budget, (decodeItems_eq_ok _ _ _ _).mpr (Or.inl ⟨closed, ?_, rfl⟩)⟩
    rw [append_nil]
  | cons item rest =>
    simp only [nestingItems, nodeCountItems] at nested counted ⊢
    obtain ⟨middle, itemRead, restRead⟩ := reads_append.mp read
    obtain ⟨first, found, open_, advanced⟩ := encode_starts item itemRead
    have inside := itemRead.inside
    have positive : 1 ≤ item.nodeCount := by cases item <;> simp [nodeCount]
    obtain ⟨grown, budget, reserved⟩ := reserveVecGrowth_granted granting valueBytes
      items.length capacity cursor.budget (by decide) (by omega)
    obtain ⟨spent, decoded⟩ := decodeValue_complete item fuel (depth + 1)
      { cursor with budget := budget } middle (by dsimp only; omega) itemRead strings.1 sorted.1
      (by omega) (by dsimp only; omega)
    obtain ⟨left, looped⟩ := decodeItems_complete rest fuel depth grown
      ⟨middle, cursor.nodes + item.nodeCount, spent⟩ (items ++ [item]) stop (by dsimp only; omega)
      restRead closed strings.2 sorted.2 (by omega) (by dsimp only; omega)
      (by rw [length_append, length_singleton]; dsimp only; omega)
    refine ⟨left, (decodeItems_eq_ok _ _ _ _).mpr (Or.inr
      ⟨first, found, open_, grown, budget, item, _, reserved, decoded, ?_⟩)⟩
    rw [looped, append_assoc, singleton_append, Nat.add_assoc]

theorem decodePairs_complete (added : Pairs)
    (fuel depth capacity : Nat) (cursor : Cursor σ) (pairs : Pairs)
    (lastKey : Option Bytes) (stop : Nat)
    (enough : 2 * (decoder.input.length - cursor.pos) + 3 ≤ fuel)
    (read : Reads decoder.input cursor.pos (encodePairs added) stop)
    (closed : decoder.input[stop]? = some 101)
    (strings : StringsWithinPairs decoder.maxString added) (sorted : SortedPairs added)
    (increasing : (lastKey.toList ++ added.map Prod.fst).IsChain (· < ·))
    (nested : depth + nestingPairs added ≤ decoder.maxDepth)
    (counted : cursor.nodes + nodeCountPairs added ≤ decoder.maxNodes)
    (held : pairs.length ≤ cursor.nodes) :
    ∃ budget, decodePairs decoder reserve fuel depth cursor pairs lastKey capacity =
      .ok (pairs ++ added, ⟨stop, cursor.nodes + nodeCountPairs added, budget⟩) := by
  obtain ⟨fuel, rfl⟩ : ∃ left, fuel = left + 1 := ⟨fuel - 1, by omega⟩
  match added with
  | [] =>
    obtain ⟨rfl, _⟩ := reads_nil.mp read
    refine ⟨cursor.budget, (decodePairs_eq_ok _ _ _ _ _).mpr (Or.inl ⟨closed, ?_, rfl⟩)⟩
    rw [append_nil]
  | (key, value) :: rest =>
    simp only [nestingPairs, nodeCountPairs] at nested counted ⊢
    rw [encodePairs, reads_append] at read
    obtain ⟨keyEnd, keyRead, read⟩ := read
    obtain ⟨middle, valueRead, restRead⟩ := reads_append.mp read
    obtain ⟨first, found, open_, keyAdvanced⟩ := encode_starts (.bytes key) keyRead
    have advanced := valueRead.1
    have inside := valueRead.inside
    have positive : 1 ≤ value.nodeCount := by cases value <;> simp [nodeCount]
    have ordered : ∀ previous ∈ lastKey, previous < key := by
      rintro previous rfl
      exact (isChain_cons_cons.mp increasing).1
    have following : ((some key).toList ++ rest.map Prod.fst).IsChain (· < ·) := by
      cases lastKey with
      | none => exact increasing
      | some previous => exact (isChain_cons_cons.mp increasing).2
    obtain ⟨grown, budget, reserved⟩ := reserveVecGrowth_granted granting pairBytes
      pairs.length capacity cursor.budget (by decide) (by omega)
    obtain ⟨spent, decoded⟩ := decodeValue_complete value fuel (depth + 1)
      { cursor with pos := keyEnd, budget := budget } middle (by dsimp only; omega) valueRead
      strings.2.1 sorted.1 (by omega) (by dsimp only; omega)
    obtain ⟨left, looped⟩ := decodePairs_complete rest fuel depth grown
      ⟨middle, cursor.nodes + value.nodeCount, spent⟩ (pairs ++ [(key, value)]) (some key) stop
      (by dsimp only; omega) restRead closed strings.2.2 sorted.2 following (by omega)
      (by dsimp only; omega)
      (by rw [length_append, length_singleton]; dsimp only; omega)
    refine ⟨left, (decodePairs_eq_ok _ _ _ _ _).mpr (Or.inr
      ⟨first, found, open_, key, keyEnd, grown, budget, value, _,
        ⟨strings.1, by omega, keyRead⟩, fun _ => ordered, reserved, decoded, ?_⟩)⟩
    rw [looped, append_assoc, singleton_append, Nat.add_assoc]

end

end Completeness

/-- `decode_with_allocation_reservation`, with the final state of the callback. The
fuel is enough, so every outcome is one of the source. -/
def decodeWithAllocationReservation
    (budget : σ) : Except BencodeError (BValue × σ) := do
  let (value, cursor) ← complete (decodeValue decoder reserve decoder.enoughFuel 0 ⟨0, 0, budget⟩)
    (((runs_settle decoder reserve _).1 0 ⟨0, 0, budget⟩).ne_exhausted (by simp [enoughFuel]))
  if cursor.pos ≠ decoder.input.length then .error .trailingData else .ok (value, cursor.budget)

/-- A value is within the limits of a decoder. -/
structure Admits (decoder : Decoder) (value : BValue) : Prop where
  nested : value.nesting ≤ decoder.maxDepth
  strings : value.StringsWithin decoder.maxString
  counted : value.nodeCount ≤ decoder.maxNodes

/-- Whatever the callback answers, an accepted input is the encoding of its value. -/
theorem decodeWithAllocationReservation_sound {decoder : Decoder}
    {reserve : Reservation σ} {budget left : σ}
    (decoded : decoder.decodeWithAllocationReservation reserve budget = .ok (value, left)) :
    encode value = decoder.input ∧ (decoder.strictDictKeys = true → value.Sorted) ∧
      decoder.Admits value := by
  obtain ⟨⟨_, cursor⟩, run, finished⟩ := bind_eq_ok.mp decoded
  dsimp only at finished
  split_ifs at finished with trailing
  obtain ⟨rfl, rfl⟩ := Prod.mk.inj (Except.ok.inj finished)
  have found := (runs_sound decoder reserve _).1 _ _ _ _ ((complete_eq_ok _).mp run)
  have read := found.read
  rw [not_ne_iff.mp trailing, reads_whole] at read
  have nested := found.nested
  have counted := found.counted
  have bounded := found.bounded
  exact ⟨read, found.sorted, by omega, found.strings, by omega⟩

theorem decodeWithAllocationReservation_complete
    (granting : Granting reserve) (budget : σ)
    (encoded : encode value = decoder.input) (size : decoder.input.length < 2 ^ 64)
    (few : decoder.maxNodes < 2 ^ 50) (sorted : value.Sorted) (admitted : decoder.Admits value) :
    ∃ left, decoder.decodeWithAllocationReservation reserve budget = .ok (value, left) := by
  obtain ⟨left, decoded⟩ := decodeValue_complete granting size few value decoder.enoughFuel 0
    ⟨0, 0, budget⟩ decoder.input.length (by simp [enoughFuel]) ((reads_whole _).mpr encoded)
    admitted.strings sorted (by rw [Nat.zero_add]; exact admitted.nested)
    (by rw [Nat.zero_add]; exact admitted.counted)
  refine ⟨left, bind_eq_ok.mpr ⟨_, (complete_eq_ok _).mpr decoded, ?_⟩⟩
  simp

end Runs

/-- `Decoder::decode`: every allocation is granted. -/
def decode (decoder : Decoder) : Except BencodeError BValue :=
  (decoder.decodeWithAllocationReservation (fun _ budget => (true, budget)) ()).map Prod.fst

end Decoder

/-- `decode` with the default limits. -/
def decode (input : Bytes) : Except BencodeError BValue := Decoder.decode { input := input }

theorem decode_eq_ok {value : BValue} : decode input = .ok value ↔
      ∃ left, Decoder.decodeWithAllocationReservation { input := input }
        (fun _ budget => (true, budget)) () = .ok (value, left) := by
  rw [decode, Decoder.decode, map_eq_ok]
  simp

theorem length_encodeString_le {content : Bytes} {max : Nat} (small : max < 2 ^ 64)
    (short : content.length ≤ max) : (encodeString content).length ≤ max + 65 := by
  have printed := length_digits_le content.length 64 (by decide)
    (Nat.lt_of_lt_of_le (Nat.lt_of_le_of_lt short small) (by decide))
  rw [encodeString, length_append, length_cons]
  omega

mutual

/-- The nodes and the longest string bound an encoding; each node pays for the key
in front of it. -/
theorem length_encode_le (max : Nat) (small : max < 2 ^ 64) {value : BValue}
    (strings : value.StringsWithin max) :
    (encode value).length + (max + 65) ≤ value.nodeCount * (2 * (max + 65)) := by
  cases value with
  | int number =>
    have short := length_signedDigits_le number
    simp only [encode, nodeCount, length_cons, length_append, length_nil]
    omega
  | bytes content =>
    have short := length_encodeString_le small strings
    simp only [encode, nodeCount]
    omega
  | list items =>
    have inner := length_encodeItems_le small strings
    simp only [encode, nodeCount, length_cons, length_append, length_nil, Nat.add_mul]
    omega
  | dict pairs =>
    have inner := length_encodePairs_le small strings
    simp only [encode, nodeCount, length_cons, length_append, length_nil, Nat.add_mul]
    omega

theorem length_encodeItems_le {max : Nat} (small : max < 2 ^ 64) {items : List BValue}
    (strings : StringsWithinItems max items) :
    (encodeItems items).length ≤ nodeCountItems items * (2 * (max + 65)) := by
  cases items with
  | nil => simp [encodeItems]
  | cons item rest =>
    have first := length_encode_le max small strings.1
    have others := length_encodeItems_le small strings.2
    simp only [encodeItems, nodeCountItems, length_append, Nat.add_mul]
    omega

theorem length_encodePairs_le {max : Nat} (small : max < 2 ^ 64)
    {pairs : Pairs} (strings : StringsWithinPairs max pairs) :
    (encodePairs pairs).length ≤ nodeCountPairs pairs * (2 * (max + 65)) := by
  match pairs with
  | [] => simp [encodePairs]
  | (key, value) :: rest =>
    have name := length_encodeString_le small strings.1
    have first := length_encode_le max small strings.2.1
    have others := length_encodePairs_le small strings.2.2
    simp only [encodePairs, nodeCountPairs, length_append, Nat.add_mul]
    omega

end

theorem length_le_encodeString (content : Bytes) :
    content.length + 1 ≤ (encodeString content).length := by
  rw [encodeString, length_append, length_cons]
  omega

mutual

/-- Conversely, an encoding bounds its strings and the number of its nodes. -/
theorem within_length_encode (max : Nat) (value : BValue) (short : (encode value).length ≤ max) :
    value.StringsWithin max ∧ value.nodeCount ≤ (encode value).length := by
  cases value with
  | int number =>
    exact ⟨trivial, Nat.succ_pos _⟩
  | bytes content =>
    have string := length_le_encodeString content
    exact ⟨(Nat.le_of_succ_le string).trans short, (Nat.succ_pos _).trans_le string⟩
  | list items =>
    rw [encode, length_cons, length_append, length_singleton] at short ⊢
    have inner := within_length_encodeItems max items (by omega)
    rw [nodeCount]
    exact ⟨inner.1, by omega⟩
  | dict pairs =>
    rw [encode, length_cons, length_append, length_singleton] at short ⊢
    have inner := within_length_encodePairs max pairs (by omega)
    rw [nodeCount]
    exact ⟨inner.1, by omega⟩

theorem within_length_encodeItems (max : Nat) (items : List BValue)
    (short : (encodeItems items).length ≤ max) :
    StringsWithinItems max items ∧ nodeCountItems items ≤ (encodeItems items).length := by
  match items with
  | [] => exact ⟨trivial, Nat.zero_le _⟩
  | item :: rest =>
    rw [encodeItems, length_append] at short ⊢
    have first := within_length_encode max item (by omega)
    have others := within_length_encodeItems max rest (by omega)
    rw [nodeCountItems]
    exact ⟨⟨first.1, others.1⟩, by omega⟩

theorem within_length_encodePairs (max : Nat) (pairs : Pairs)
    (short : (encodePairs pairs).length ≤ max) :
    StringsWithinPairs max pairs ∧ nodeCountPairs pairs ≤ (encodePairs pairs).length := by
  match pairs with
  | [] => exact ⟨trivial, Nat.zero_le _⟩
  | (key, value) :: rest =>
    have name := length_le_encodeString key
    rw [encodePairs, length_append, length_append] at short ⊢
    have first := within_length_encode max value (by omega)
    have others := within_length_encodePairs max rest (by omega)
    rw [nodeCountPairs]
    exact ⟨⟨by omega, first.1, others.1⟩, by omega⟩

end

/-- An accepted input is the encoding of a value within the default limits, and of a
size the target can address. -/
theorem decode_size {value : BValue} (decoded : decode input = .ok value) :
    encode value = input ∧ input.length < 2 ^ 64 := by
  obtain ⟨left, run⟩ := decode_eq_ok.mp decoded
  obtain ⟨rfl, _, _, strings, counted⟩ := Decoder.decodeWithAllocationReservation_sound run
  have short := length_encode_le (16 * 1024 * 1024) (by decide) strings
  have few : value.nodeCount ≤ 1000000 := counted
  exact ⟨rfl, by omega⟩

/-- A value with strictly increasing keys that is within the default limits is read back, also
by a decoder that does not check the order of keys. -/
theorem Decoder.decode_encode (strictDictKeys : Bool) (value : BValue) (sorted : value.Sorted)
    (nested : value.nesting ≤ 64) (strings : value.StringsWithin (16 * 1024 * 1024))
    (counted : value.nodeCount ≤ 1000000) :
    Decoder.decode { input := encode value, strictDictKeys } = .ok value := by
  have short := length_encode_le (16 * 1024 * 1024) (by decide) strings
  have size : (encode value).length < 2 ^ 64 := by omega
  obtain ⟨left, decoded⟩ := Decoder.decodeWithAllocationReservation_complete
    { input := encode value, strictDictKeys } (fun _ budget => (true, budget)) (fun _ _ => rfl) ()
    rfl size (by change 1000000 < 2 ^ 50; decide) sorted ⟨nested, strings, counted⟩
  rw [Decoder.decode, decoded]
  rfl

/-- The strict decoder with its default limits accepts exactly the encodings of the
values with strictly increasing keys that are within those limits. -/
theorem decode_eq_ok_iff (input : Bytes) (value : BValue) :
    decode input = .ok value ↔
      encode value = input ∧ value.Sorted ∧ value.nesting ≤ 64 ∧
        value.StringsWithin (16 * 1024 * 1024) ∧ value.nodeCount ≤ 1000000 := by
  constructor
  · intro decoded
    obtain ⟨left, run⟩ := decode_eq_ok.mp decoded
    obtain ⟨encoded, sorted, nested, strings, counted⟩ :=
      Decoder.decodeWithAllocationReservation_sound run
    exact ⟨encoded, sorted rfl, nested, strings, counted⟩
  · rintro ⟨rfl, sorted, nested, strings, counted⟩
    exact Decoder.decode_encode true value sorted nested strings counted

end TorrentNG.Bencode
