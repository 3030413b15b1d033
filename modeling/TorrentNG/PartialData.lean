import TorrentNG.DownloadCalls
import TorrentNG.Runs

/-!
# Partial pieces in memory

The picker remembers which blocks of a piece were received, the assembly of the piece holds
their bytes. A task keeps its partial data when every received block of a piece that is
aggregated in memory is in the assembly of that piece.

`handle_block` updates the two in separate calls. What it does is split into what happens to
the piece of the block and `Aside`, which says that nothing happens to the other pieces; the
eviction of assemblies is the one place where other pieces change. One exit path forgets
the assembly and leaves the received blocks: a block that fails the check of its padding.
-/

namespace TorrentNG.Download

open AList Fallible List MachineArithmetic Metainfo Picker Pieces PiecePicker Reading Recheck Tables

/-! ## What the operations on assemblies do -/

/-- Inserting a block keeps the blocks that an assembly has. -/
theorem PieceAssembly.insert_received (assembly : PieceAssembly) (now offset : Nat)
    (data : List UInt8) :
    let (after, result) := assembly.insert now offset data
    after.received.length = assembly.received.length ∧
      (∀ block : Nat, assembly.received[block]? = some true → after.received[block]? = some true) ∧
      (result = .ok () → after.received[offset / maxBlockSize]? = some true) := by
  unfold PieceAssembly.insert
  dsimp only
  split
  next => exact ⟨rfl, fun _ known => known, nofun⟩
  next stop _ =>
    split
    next => exact ⟨rfl, fun _ known => known, nofun⟩
    next =>
      split
      next => exact ⟨rfl, fun _ known => known, nofun⟩
      next got =>
        split
        next => exact ⟨rfl, fun _ known => known, fun _ => got⟩
        next => exact ⟨rfl, fun _ known => known, nofun⟩
      next missing =>
        have inside := (List.getElem?_eq_some_iff.mp missing).1
        refine ⟨length_set, ?_, fun _ => List.getElem?_set_self inside⟩
        intro block known
        by_cases same : offset / maxBlockSize = block
        · subst same
          exact List.getElem?_set_self inside
        · exact (List.getElem?_set_ne same).trans known

variable {assembly : PieceAssembly}

section Evictions

variable {currentPiece maxAssemblies maxBytes : Nat}
  {assemblies : Table Nat PieceAssembly} {piece : Nat}

/-- The assembly of another piece can be evicted. -/
theorem mem_others (present : assemblies.lookup piece = some assembly)
    (different : piece ≠ currentPiece) : (⟨piece, assembly⟩ : Sigma fun _ : Nat => PieceAssembly) ∈
      assemblies.entries.filter fun entry => entry.1 != currentPiece :=
  mem_filter.mpr ⟨mem_lookup_iff.mp present, bne_iff_ne.mpr different⟩

theorem leastRecentlyUsed_spec (found : leastRecentlyUsed assemblies currentPiece = some piece) :
    piece ≠ currentPiece ∧ ∃ assembly, assemblies.lookup piece = some assembly ∧
      ∀ other later, assemblies.lookup other = some later → other ≠ currentPiece →
        assembly.lastUsed ≤ later.lastUsed := by
  obtain ⟨entry, least, rfl⟩ := Option.map_eq_some_iff.mp found
  have member := mem_filter.mp (argmin_mem least)
  refine ⟨bne_iff_ne.mp member.2, entry.2, mem_lookup_iff.mpr member.1, ?_⟩
  intro other later present different
  have earlier := le_of_mem_argmin (mem_others present different) least
  exact earlier

/-- There is another assembly to evict as long as there is another assembly. -/
theorem leastRecentlyUsed_none
    (none : leastRecentlyUsed assemblies currentPiece = none)
    (present : assemblies.lookup piece = some assembly) : piece = currentPiece := by
  by_contra different
  have empty := argmin_eq_none.mp (Option.map_eq_none_iff.mp none)
  have member := mem_others present different
  rw [empty] at member
  cases member

/-- The assembly of a piece is gone. It was used no later than any other that is left, but for
that of the current piece. -/
def Evicted (currentPiece : Nat) (before after : Table Nat PieceAssembly) (gone : Nat) : Prop :=
  after.lookup gone = none ∧ ∃ old, before.lookup gone = some old ∧
    ∀ kept assembly, after.lookup kept = some assembly → kept ≠ currentPiece →
      old.lastUsed ≤ assembly.lastUsed

/-- The loop takes the evicted assemblies away, the least recently used first, and leaves the
others, and it never evicts the assembly of the current piece. It ends within the budget, or with
that assembly alone. -/
theorem evictLoop_spec (currentPiece maxAssemblies maxBytes rounds : Nat)
    (assemblies : Table Nat PieceAssembly) (bytes : Nat) :
    let evicted := evictLoop currentPiece maxAssemblies maxBytes rounds assemblies bytes
    currentPiece ∉ evicted.2.2 ∧
      (∀ piece, piece ∉ evicted.2.2 → evicted.1.lookup piece = assemblies.lookup piece) ∧
      (∀ piece assembly, evicted.1.lookup piece = some assembly →
        assemblies.lookup piece = some assembly) ∧
      (size assemblies ≤ rounds → size evicted.1 ≤ maxAssemblies ∧ evicted.2.1 ≤ maxBytes ∨
        ∀ piece assembly, evicted.1.lookup piece = some assembly → piece = currentPiece) ∧
      ∀ gone ∈ evicted.2.2, Evicted currentPiece assemblies evicted.1 gone := by
  induction rounds generalizing assemblies bytes with
  | zero =>
    refine ⟨not_mem_nil, fun _ _ => rfl, fun _ _ found => found, fun enough => .inr ?_, nofun⟩
    intro piece assembly found
    have member : (⟨piece, assembly⟩ : Sigma fun _ : Nat => PieceAssembly) ∈ assemblies.entries :=
      mem_lookup_iff.mp found
    rw [eq_nil_of_length_eq_zero (Nat.le_zero.mp enough)] at member
    cases member
  | succ rounds ih =>
    unfold evictLoop
    split
    next =>
      split
      next nothing =>
        exact ⟨not_mem_nil, fun _ _ => rfl, fun _ _ found => found,
          fun _ => .inr fun _ _ found => leastRecentlyUsed_none nothing found, nofun⟩
      next oldest found =>
        obtain ⟨different, assembly, present, least⟩ := leastRecentlyUsed_spec found
        obtain ⟨current, others, stored, budget, order⟩ :=
          ih (assemblies.erase oldest) (bytes - assembly.len)
        have left := fun piece assembly left =>
          lookup_erase_eq_some.mp (stored piece assembly left)
        rw [present]
        refine ⟨?_, ?_, fun piece assembly kept => (left piece assembly kept).2, ?_, ?_⟩
        · exact not_mem_cons_of_ne_of_not_mem different.symm current
        · intro piece kept
          obtain ⟨different, later⟩ := ne_and_not_mem_of_not_mem_cons kept
          exact (others piece later).trans (lookup_erase_ne different)
        · intro enough
          apply budget
          have fewer := total_erase (fun _ _ => 1) present
          rw [← size_eq_total, ← size_eq_total] at fewer
          omega
        · refine forall_mem_cons.mpr ⟨⟨?_, assembly, present, fun kept later stays =>
            least kept later (left kept later stays).2⟩, fun gone member => ?_⟩
          · exact Option.eq_none_iff_forall_ne_some.mpr fun again stays => (left _ _ stays).1 rfl
          · obtain ⟨absent, old, before, earlier⟩ := order gone member
            exact ⟨absent, old, (lookup_erase_eq_some.mp before).2, earlier⟩
    next within =>
      refine ⟨not_mem_nil, fun _ _ => rfl, fun _ _ found => found, fun _ => .inl ?_, nofun⟩
      obtain ⟨few, small⟩ := not_or.mp within
      exact ⟨Nat.le_of_not_lt few, Nat.le_of_not_lt small⟩

/-- The assemblies without that of a piece, and the bytes that they have then. -/
def without (held : Table Nat PieceAssembly × Nat) (gone : Nat) : Table Nat PieceAssembly × Nat :=
  (held.1.erase gone, held.2 - ((held.1.lookup gone).map PieceAssembly.len).getD 0)

/-- The loop evicts one assembly after another, each while the budget is exceeded. -/
theorem evictLoop_rounds (currentPiece maxAssemblies maxBytes rounds : Nat)
    (assemblies : Table Nat PieceAssembly) (bytes : Nat) :
    let evicted := evictLoop currentPiece maxAssemblies maxBytes rounds assemblies bytes
    (evicted.1, evicted.2.1) = evicted.2.2.foldl without (assemblies, bytes) ∧
      Runs.Each without (fun held _ => maxAssemblies < size held.1 ∨ maxBytes < held.2)
        (assemblies, bytes) evicted.2.2 := by
  induction rounds generalizing assemblies bytes with
  | zero => exact ⟨rfl, trivial⟩
  | succ rounds ih =>
    unfold evictLoop
    split
    next exceeded =>
      split
      next => exact ⟨rfl, trivial⟩
      next oldest found =>
        obtain ⟨_, assembly, present, _⟩ := leastRecentlyUsed_spec found
        have smaller : without (assemblies, bytes) oldest =
            (assemblies.erase oldest, bytes - assembly.len) := by
          simp only [without, present, Option.map_some, Option.getD_some]
        rw [present]
        simp only [foldl_cons, Runs.Each, smaller]
        obtain ⟨left, later⟩ := ih (assemblies.erase oldest) (bytes - assembly.len)
        exact ⟨left, exceeded, later⟩
    next => exact ⟨rfl, trivial⟩

/-- Eviction takes the least recently used assemblies of other pieces away, one after another and
each while the budget is exceeded, and leaves the rest as they were. It ends within the budget, or
with the assembly of the current piece alone. -/
theorem eviction_exact (assemblies : Table Nat PieceAssembly) (bytes : Nat) :
    let evicted :=
      evictPieceAssembliesToBudget assemblies bytes currentPiece maxAssemblies maxBytes
    (size evicted.1 ≤ maxAssemblies ∧ evicted.2.1 ≤ maxBytes ∨
      ∀ piece assembly, evicted.1.lookup piece = some assembly → piece = currentPiece) ∧
    currentPiece ∉ evicted.2.2 ∧
    (∀ piece, piece ∉ evicted.2.2 → evicted.1.lookup piece = assemblies.lookup piece) ∧
    (∀ gone ∈ evicted.2.2, Evicted currentPiece assemblies evicted.1 gone) ∧
    (evicted.1, evicted.2.1) = evicted.2.2.foldl without (assemblies, bytes) ∧
    Runs.Each without (fun held _ => maxAssemblies < size held.1 ∨ maxBytes < held.2)
      (assemblies, bytes) evicted.2.2 := by
  obtain ⟨current, others, _, budget, order⟩ := evictLoop_spec currentPiece maxAssemblies maxBytes
    (size assemblies) assemblies bytes
  exact ⟨budget (Nat.le_refl _), current, others, order, evictLoop_rounds ..⟩

end Evictions

namespace DownloadTask

/-! ## The invariants of a task -/

variable (task : DownloadTask)

/-- A block is in the assembly of its piece. -/
def Assembled (piece block : Nat) : Prop :=
  ∃ assembly, task.pieceAssemblies.lookup piece = some assembly ∧
    assembly.received[block]? = some true

/-- Every received block of a piece is in its assembly, if the piece is written as a whole. -/
def KeptAt (piece : Nat) : Prop :=
  task.canAggregatePieceWrite piece = true →
    ∀ block, (task.picker.view piece).Received block → task.Assembled piece block

/-- No partial data is lost. -/
def Kept : Prop := ∀ piece, task.KeptAt piece

/-- What holds in every task, whatever its peers send: the picker is one of the map, and the
assemblies have a flag for each block. -/
structure Sound (task : DownloadTask) : Prop where
  consistent : Consistent task.picker
  layout : SameLayout (ofPieceMap task.pieceMap) task.picker
  shaped : ∀ piece assembly, task.pieceAssemblies.lookup piece = some assembly →
    assembly.received.length = nBlocks ((ofPieceMap task.pieceMap).pieceLengthFor piece)

/-- Nothing is lost of the pieces other than one. -/
structure Aside (piece : Nat) (before after : DownloadTask) : Prop where
  aggregate : ∀ other, other ≠ piece →
    after.canAggregatePieceWrite other = before.canAggregatePieceWrite other
  received : ∀ other block, other ≠ piece → (after.picker.view other).Received block →
    (before.picker.view other).Received block
  assembly : ∀ other, other ≠ piece →
    after.pieceAssemblies.lookup other = before.pieceAssemblies.lookup other

variable {piece : Nat}

theorem Aside.trans {first second third : DownloadTask} (early : Aside piece first second)
    (late : Aside piece second third) :
    Aside piece first third where
  aggregate other different := (late.aggregate other different).trans (early.aggregate other different)
  received other block different received :=
    early.received other block different (late.received other block different received)
  assembly other different := (late.assembly other different).trans (early.assembly other different)

/-- What is kept of the other pieces is kept, so only the piece itself is left to consider. -/
theorem Kept.aside {before after : DownloadTask} (kept : Kept before)
    (aside : Aside piece before after) (here : after.KeptAt piece) : Kept after := by
  intro other
  by_cases same : other = piece
  · rw [same]
    exact here
  intro aggregate block received
  rw [aside.aggregate other same] at aggregate
  obtain ⟨assembly, present, got⟩ :=
    kept other aggregate block (aside.received other block same received)
  exact ⟨assembly, (aside.assembly other same).trans present, got⟩

/-- A piece without received blocks loses nothing. -/
theorem keptAt_of_none {task : DownloadTask}
    (none : ∀ block, ¬(task.picker.view piece).Received block) : task.KeptAt piece :=
  fun _ block received => absurd received (none block)

section Operations

variable {task : DownloadTask}

theorem pieceLength_eq {len : Nat} (known : task.pieceLength piece = .ok len) :
    len = (ofPieceMap task.pieceMap).pieceLengthFor piece := by
  unfold pieceLength at known
  rw [task.hashed] at known
  split_ifs at known with outside
  dsimp only at known
  split at known
  · exact (Except.ok.inj known).symm.trans
      (if_pos (show piece + 1 = task.pieceMap.pieceCount by omega)).symm
  · exact (Except.ok.inj known).symm.trans
      (if_neg (show ¬piece + 1 = task.pieceMap.pieceCount by omega)).symm

theorem rejectPieces_eq (task : DownloadTask) (pieces : List Nat) :
    task.rejectPieces pieces =
      { task with picker := pieces.foldl PiecePicker.rejectPiece task.picker } := by
  induction pieces generalizing task with
  | nil => rfl
  | cons piece rest ih => exact ih (task.rejectPiece piece)

/-! ### The picker and the assemblies stay sound -/

section

variable (sound : Sound task)

include sound

theorem Sound.call (call : Call) : Sound { task with picker := (task.picker.step call).1 } :=
  ⟨step_consistent sound.consistent call, sound.layout.trans (step_layout task.picker call),
    sound.shaped⟩

variable (piece : Nat)

theorem Sound.rejectPiece : Sound (task.rejectPiece piece) :=
  sound.call (.rejectPiece piece)

theorem Sound.rejectPieces (pieces : List Nat) : Sound (task.rejectPieces pieces) :=
  List.foldlRecOn pieces _ sound fun _ kept piece _ => kept.rejectPiece piece

/-- Assemblies may be taken away, and one may be put in that has the right shape. -/
theorem Sound.withAssemblies {table : Table Nat PieceAssembly} (pieceAssemblyBytes : Nat)
    (stored : ∀ piece assembly, table.lookup piece = some assembly →
      task.pieceAssemblies.lookup piece = some assembly ∨
        assembly.received.length = nBlocks ((ofPieceMap task.pieceMap).pieceLengthFor piece)) :
    Sound { task with pieceAssemblies := table, pieceAssemblyBytes } := by
  refine ⟨sound.consistent, sound.layout, ?_⟩
  intro piece assembly found
  rcases stored piece assembly found with before | shape
  · exact sound.shaped piece assembly before
  · exact shape

theorem Sound.removePieceAssembly : Sound (task.removePieceAssembly piece) := by
  obtain ⟨bytes, removed⟩ := removePieceAssembly_frame task piece
  rw [removed]
  apply sound.withAssemblies
  intro other assembly found
  exact .inl (lookup_erase_eq_some.mp found).2

theorem Sound.releasePiece : Sound (task.releasePiece piece) := by
  apply Sound.removePieceAssembly
  exact { sound with }

theorem Sound.clearPieceAssemblies : Sound task.clearPieceAssemblies := by
  apply Sound.rejectPieces
  exact sound.withAssemblies 0 nofun

end

/-! ### The other pieces -/

theorem aside_withAssemblies {table : Table Nat PieceAssembly} (bytes : Nat)
    (others : ∀ other, other ≠ piece → table.lookup other = task.pieceAssemblies.lookup other) :
    Aside piece task { task with pieceAssemblies := table, pieceAssemblyBytes := bytes } :=
  ⟨fun _ _ => rfl, fun _ _ _ received => received, others⟩

theorem removePieceAssembly_aside (task : DownloadTask) (piece : Nat) :
    Aside piece task (task.removePieceAssembly piece) := by
  obtain ⟨bytes, removed⟩ := removePieceAssembly_frame task piece
  rw [removed]
  exact aside_withAssemblies bytes fun _ different => lookup_erase_ne different

theorem rejectPiece_aside (consistent : Consistent task.picker) (piece : Nat) :
    Aside piece task (task.rejectPiece piece) :=
  ⟨fun _ _ => rfl, fun _ _ _ received => (rejectPiece_received consistent received).2,
    fun _ _ => rfl⟩

theorem cancelRequest_aside (task : DownloadTask) (piece begin : Nat) :
    Aside piece task { task with picker := task.picker.cancelRequest piece begin } :=
  ⟨fun _ _ => rfl, fun _ _ _ received => cancelRequest_received.mp received, fun _ _ => rfl⟩

theorem canAggregatePieceWrite_congr {before after : DownloadTask}
    (pieceMap : after.pieceMap = before.pieceMap) (pieces : after.pieces = before.pieces)
    (cap : after.pieceAssemblySoftCapBytes = before.pieceAssemblySoftCapBytes)
    (restored : piece ∈ after.restoredPartialPieces ↔ piece ∈ before.restoredPartialPieces) :
    after.canAggregatePieceWrite piece = before.canAggregatePieceWrite piece := by
  have length : after.pieceLength piece = before.pieceLength piece := by
    rw [pieceLength, pieceLength, pieceMap, pieces]
  rw [canAggregatePieceWrite, canAggregatePieceWrite, length, cap]
  simp only [restored]

theorem unrestored_aside (task : DownloadTask) (piece : Nat) :
    Aside piece task
      { task with restoredPartialPieces := task.restoredPartialPieces.erase piece } := by
  refine ⟨?_, fun _ _ _ received => received, fun _ _ => rfl⟩
  intro other different
  refine canAggregatePieceWrite_congr rfl rfl rfl ?_
  exact Finset.mem_erase.trans (and_iff_right different)

theorem releasePiece_aside (task : DownloadTask) (piece : Nat) :
    Aside piece task (task.releasePiece piece) :=
  (unrestored_aside task piece).trans (removePieceAssembly_aside _ piece)

/-! ### The piece itself -/

theorem not_received_rejectPiece (consistent : Consistent task.picker) (piece block : Nat) :
    ¬((task.rejectPiece piece).picker.view piece).Received block :=
  fun received => (rejectPiece_received consistent received).1 rfl

/-- Evicted pieces are rejected, so what is left of the received blocks is in an assembly. The
assembly of the current piece survives. -/
theorem enforcePieceAssemblyBudget_spec (sound : Sound task) (currentPiece : Nat) :
    let after := task.enforcePieceAssemblyBudget currentPiece
    Sound after ∧ (Kept task → Kept after) ∧
      (∀ piece, after.canAggregatePieceWrite piece = task.canAggregatePieceWrite piece) ∧
      ∀ block, task.Assembled currentPiece block → after.Assembled currentPiece block := by
  obtain ⟨current, others, stored, _⟩ := evictLoop_spec currentPiece maxInMemoryPieceAssemblies
    task.pieceAssemblySoftCapBytes (size task.pieceAssemblies) task.pieceAssemblies task.pieceAssemblyBytes
  have shaped : Sound (task.enforcePieceAssemblyBudget currentPiece) := by
    apply Sound.rejectPieces
    apply sound.withAssemblies
    exact fun piece assembly found => .inl (stored piece assembly found)
  refine ⟨shaped, ?_⟩
  unfold enforcePieceAssemblyBudget
  dsimp only
  rw [rejectPieces_eq]
  refine ⟨?_, fun _ => rfl, ?_⟩
  · intro kept piece aggregate block received
    obtain ⟨left, before⟩ := rejectAll_received sound.consistent received
    obtain ⟨assembly, present, got⟩ := kept piece aggregate block before
    exact ⟨assembly, (others piece left).trans present, got⟩
  · rintro block ⟨assembly, present, got⟩
    exact ⟨assembly, (others currentPiece current).trans present, got⟩

theorem Kept.clearPieceAssemblies (kept : Kept task) (sound : Sound task) :
    Kept task.clearPieceAssemblies := by
  intro piece aggregate block received
  unfold DownloadTask.clearPieceAssemblies at aggregate received
  rw [rejectPieces_eq] at aggregate received
  obtain ⟨left, before⟩ := rejectAll_received sound.consistent received
  -- a received block has an assembly, so its piece was among the rejected ones
  obtain ⟨assembly, present, _⟩ := kept piece aggregate block before
  exact absurd (mem_map_of_mem (mem_lookup_iff.mp present)) left

/-! ### Recording a block -/

theorem openAssembly_cases {len : Nat} {outside : Outside} {after : DownloadTask}
    {inserted : Bool}
    (opened : task.openAssembly piece len outside = .ok (after, assembly, inserted)) :
    ∃ pieceAssemblyBytes pieceAssemblies,
      after = { task with pieceAssemblyBytes, pieceAssemblies } ∧
      (∀ other, other ≠ piece → pieceAssemblies.lookup other = task.pieceAssemblies.lookup other) ∧
      (task.pieceAssemblies.lookup piece = some assembly ∨
        task.pieceAssemblies.lookup piece = none ∧ assembly = PieceAssembly.new len outside.now) := by
  unfold openAssembly at opened
  split at opened
  next stored present =>
    obtain ⟨rfl, rfl, _⟩ := Prod.ext_iff.mp (Except.ok.inj opened)
    exact ⟨_, _, rfl, fun _ _ => rfl, .inl present⟩
  next absent =>
    split_ifs at opened
    obtain ⟨rfl, rfl, _⟩ := Prod.ext_iff.mp (Except.ok.inj opened)
    exact ⟨_, _, rfl, fun _ different => lookup_insert_ne different, .inr ⟨absent, rfl⟩⟩

section Recording

variable {block : BlockEvent} {outside : Outside} {len : Nat} {opened : DownloadTask}
  {assembly : PieceAssembly} {inserted : Bool}

/-- The task with the assembly into which a block was put. -/
def withAssembly (task : DownloadTask) (piece : Nat) (assembly : PieceAssembly) : DownloadTask :=
  { task with pieceAssemblies := task.pieceAssemblies.insert piece assembly }

/-- No block leaves the assembly, and a block that is accepted enters it. -/
theorem withAssembly_spec (known : task.pieceLength block.piece = .ok len)
    (opens : task.openAssembly block.piece len outside = .ok (opened, assembly, inserted)) :
    let updated := assembly.insert outside.now block.offset block.data
    let next := opened.withAssembly block.piece updated.1
    Works [] task next ∧ Aside block.piece task next ∧ (Sound task → Sound next) ∧
      (Kept task → Kept next) ∧
      next.canAggregatePieceWrite block.piece = task.canAggregatePieceWrite block.piece ∧
      (updated.2 = .ok () → next.Assembled block.piece (block.offset / maxBlockSize)) := by
  intro updated next
  obtain ⟨bytes, table, rfl, others, origin⟩ := openAssembly_cases opens
  obtain ⟨length, grows, enters⟩ :=
    PieceAssembly.insert_received assembly outside.now block.offset block.data
  have aside : Aside block.piece task next := aside_withAssemblies bytes fun other different =>
    (lookup_insert_ne different).trans (others other different)
  refine ⟨⟨rfl, rfl, rfl⟩, aside, fun sound => sound.withAssemblies bytes ?_,
    fun kept => kept.aside aside ?_, rfl, fun accepted => ⟨_, lookup_insert _, enters accepted⟩⟩
  · intro piece stored found
    rcases lookup_insert_eq_some.mp found with ⟨rfl, rfl⟩ | ⟨different, found⟩
    · refine .inr (length.trans ?_)
      rcases origin with present | ⟨_, rfl⟩
      · exact sound.shaped _ _ present
      · exact (length_replicate ..).trans (congrArg nBlocks (pieceLength_eq known))
    · exact .inl ((others piece different).symm.trans found)
  · intro aggregate index received
    obtain ⟨stored, present, got⟩ := kept block.piece aggregate index received
    rcases origin with same | ⟨absent, _⟩
    · obtain rfl := Option.mem_unique same present
      exact ⟨_, lookup_insert _, grows index got⟩
    · cases absent.symm.trans present

/-- A refused block leaves the other pieces as they are, and an accepted block is in the assembly
of its piece. -/
theorem recordPieceBlock_spec {after : DownloadTask} {result : Except BlockError Unit}
    (recorded : task.recordPieceBlock block outside = (after, result)) :
    (∃ evicted, Works (rejections evicted) task after) ∧
      (Sound task → Sound after ∧ (result ≠ .ok () → Aside block.piece task after) ∧
        (result = .ok () → Kept task → task.canAggregatePieceWrite block.piece = true →
          Kept after ∧ after.Assembled block.piece (block.offset / maxBlockSize) ∧
            after.canAggregatePieceWrite block.piece = true)) := by
  have unchanged : Aside block.piece task task := ⟨fun _ _ => rfl, fun _ _ _ same => same, fun _ _ => rfl⟩
  unfold recordPieceBlock at recorded
  split at recorded
  next =>
    cases recorded
    exact ⟨⟨[], .refl task⟩, fun sound => ⟨sound, fun _ => unchanged, nofun⟩⟩
  next len known =>
    split_ifs at recorded with large
    · cases recorded
      refine ⟨⟨[], .refl task⟩, fun sound => ⟨sound, fun refused => absurd rfl refused, ?_⟩⟩
      intro _ _ aggregate
      rw [canAggregatePieceWrite, known] at aggregate
      have small := of_decide_eq_true (Bool.and_eq_true_iff.mp aggregate).1
      omega
    split at recorded
    next =>
      cases recorded
      exact ⟨⟨[], .refl task⟩, fun sound => ⟨sound, fun _ => unchanged, nofun⟩⟩
    next opened assembly inserted opens =>
      obtain ⟨entered, aside, shaped, keeps, able, assembled⟩ := withAssembly_spec known opens
      dsimp only at recorded
      split at recorded
      next =>
        cases recorded
        split
        · exact ⟨⟨[], entered.followed (removePieceAssembly_works _ _)⟩, fun sound =>
            ⟨(shaped sound).removePieceAssembly _,
              fun _ => aside.trans (removePieceAssembly_aside _ _), nofun⟩⟩
        · exact ⟨⟨[], entered⟩, fun sound => ⟨shaped sound, fun _ => aside, nofun⟩⟩
      next accepted =>
        cases recorded
        obtain ⟨evicted, enforced⟩ := enforcePieceAssemblyBudget_works (opened.withAssembly block.piece
          (assembly.insert outside.now block.offset block.data).1) block.piece
        refine ⟨⟨evicted, entered.trans enforced⟩, fun sound => ?_⟩
        obtain ⟨within, left, same, present⟩ :=
          enforcePieceAssemblyBudget_spec (shaped sound) block.piece
        exact ⟨within, fun refused => absurd rfl refused, fun _ kept aggregate =>
          ⟨left (keeps kept), present _ (assembled accepted), (same _).trans (able.trans aggregate)⟩⟩

end Recording

/-! ### Handling a block -/

section Handling

variable {block : BlockEvent} {outside : Outside} {after : DownloadTask}

theorem canAggregatePieceWrite_removePieceAssembly (task : DownloadTask) (removed piece : Nat) :
    (task.removePieceAssembly removed).canAggregatePieceWrite piece =
      task.canAggregatePieceWrite piece := by
  obtain ⟨bytes, frame⟩ := removePieceAssembly_frame task removed
  rw [frame]
  rfl

/-- Cancelling a request and dropping the assembly of its piece loses nothing, where no received
block of the piece is in memory only. -/
theorem drop_spec (task : DownloadTask) (piece begin : Nat) :
    let after := removePieceAssembly { task with picker := task.picker.cancelRequest piece begin } piece
    Works [.cancelRequest piece begin] task after ∧ (Sound task → Sound after) ∧
      (Kept task → (task.canAggregatePieceWrite piece = true →
        ∀ index, ¬(task.picker.view piece).Received index) → Kept after) := by
  have cancelled : Works [.cancelRequest piece begin] task
      { task with picker := task.picker.cancelRequest piece begin } := ⟨rfl, rfl, rfl⟩
  refine ⟨cancelled.followed (removePieceAssembly_works _ piece),
    fun sound => (sound.call (.cancelRequest piece begin)).removePieceAssembly piece, ?_⟩
  intro kept nothing
  have aside := (cancelRequest_aside task piece begin).trans (removePieceAssembly_aside _ piece)
  apply kept.aside aside
  intro aggregate index received
  rw [canAggregatePieceWrite_removePieceAssembly] at aggregate
  rw [(removePieceAssembly_works _ piece).picker] at received
  exact absurd (cancelRequest_received.mp received) (nothing aggregate index)

/-- Verification of a piece that is no longer in progress receives nothing. -/
theorem finishPiece_spec (task : DownloadTask) (piece : Nat) (aggregatePieceWrite : Bool)
    (outside : Outside) :
    let after := task.finishPiece piece aggregatePieceWrite outside
    (Works [] task after ∨ Works [.rejectPiece piece] task after) ∧
      (Sound task → Sound after ∧ Aside piece task after ∧
        ∀ index, (after.picker.view piece).Received index → (task.picker.view piece).Received index) := by
  have works := rejectPiece_works task piece
  have rejected := fun sound : Sound task => rejectPiece_aside sound.consistent piece
  have before : Sound task → ∀ index, ((task.rejectPiece piece).picker.view piece).Received index →
      (task.picker.view piece).Received index :=
    fun sound _ received => (rejectPiece_received sound.consistent received).2
  dsimp only [finishPiece]
  split
  next =>
    split
    · refine ⟨.inr (works.followed (removePieceAssembly_works _ piece)), fun sound =>
        ⟨(sound.rejectPiece piece).removePieceAssembly piece,
          (rejected sound).trans (removePieceAssembly_aside _ piece), ?_⟩⟩
      rw [(removePieceAssembly_works _ piece).picker]
      exact before sound
    · refine ⟨.inl (releasePiece_works task piece), fun sound =>
        ⟨sound.releasePiece piece, releasePiece_aside task piece, ?_⟩⟩
      rw [(releasePiece_works task piece).picker]
      exact fun _ => id
  all_goals
    refine ⟨.inr (works.followed (releasePiece_works _ piece)), fun sound =>
      ⟨(sound.rejectPiece piece).releasePiece piece,
        (rejected sound).trans (releasePiece_aside _ piece), ?_⟩⟩
    rw [(releasePiece_works _ piece).picker]
    exact before sound

/-- A block that fails the check of its padding while other blocks of its piece are in memory. -/
def DropsReceived (task : DownloadTask) (block : BlockEvent) : Prop :=
  task.picker.isPieceInProgress block.piece = true ∧
    task.picker.isBlockReceived block.piece block.offset = false ∧
    (∃ error, validatePaddingBlock task.pieceMap block.piece block.offset block.data = .error error) ∧
    task.canAggregatePieceWrite block.piece = true ∧
    ∃ index, (task.picker.view block.piece).Received index

/-- A block whose data could not be kept is cancelled, or its piece is rejected. -/
theorem storeBlock_spec {done : Bool}
    (stored : task.storeBlock block (task.canAggregatePieceWrite block.piece) outside =
      (after, done)) :
    (done = false → ∃ calls, BlockCalls task.picker block calls ∧ Works calls task after) ∧
      (done = true → ∃ evicted, Works (rejections evicted) task after) ∧
      (Sound task → Kept task → Sound after ∧ Kept after ∧ (done = true →
        after.canAggregatePieceWrite block.piece = task.canAggregatePieceWrite block.piece ∧
        (task.canAggregatePieceWrite block.piece = true →
          after.Assembled block.piece (block.offset / maxBlockSize)))) := by
  delta storeBlock at stored
  split_ifs at stored with aggregate written
  · split at stored
    next refused error recorded =>
      cases stored
      obtain ⟨⟨evicted, works⟩, spec⟩ := recordPieceBlock_spec recorded
      have rejected := (works.followed (removePieceAssembly_works _ block.piece)).trans
        (rejectPiece_works _ block.piece)
      refine ⟨fun _ => ⟨_, .rejected evicted, rejected⟩, by simp, fun sound kept => ?_⟩
      obtain ⟨shaped, aside, _⟩ := spec sound
      have removed := shaped.removePieceAssembly block.piece
      refine ⟨removed.rejectPiece _, ?_, by simp⟩
      apply kept.aside ((aside (by simp)).trans ((removePieceAssembly_aside _ _).trans
        (rejectPiece_aside removed.consistent _)))
      exact keptAt_of_none (not_received_rejectPiece removed.consistent _)
    next recorded accepts =>
      cases stored
      obtain ⟨works, spec⟩ := recordPieceBlock_spec accepts
      refine ⟨by simp, fun _ => works, fun sound kept => ?_⟩
      obtain ⟨shaped, _, keeps⟩ := spec sound
      obtain ⟨here, assembled, able⟩ := keeps rfl kept aggregate
      exact ⟨shaped, here, fun _ => ⟨able.trans aggregate.symm, fun _ => assembled⟩⟩
  · cases stored
    exact ⟨by simp, fun _ => ⟨[], .refl task⟩, fun sound kept =>
      ⟨sound, kept, fun _ => ⟨rfl, fun able => absurd able aggregate⟩⟩⟩
  · cases stored
    obtain ⟨works, shaped, keeps⟩ := drop_spec task block.piece block.offset
    exact ⟨fun _ => ⟨_, .cancelled, works⟩, by simp, fun sound kept =>
      ⟨shaped sound, keeps kept fun able => absurd able aggregate, by simp⟩⟩

/-- A block of an aggregated piece that completes the piece in the picker completes its
assembly. -/
theorem assembly_complete (sound : Sound task) (kept : Kept task)
    (aggregate : task.canAggregatePieceWrite block.piece = true)
    (assembled : task.Assembled block.piece (block.offset / maxBlockSize))
    (complete : (task.picker.blockReceived block.piece block.offset).2 = true) :
    ∃ assembly, task.pieceAssemblies.lookup block.piece = some assembly ∧
      assembly.isComplete = true := by
  rcases blockReceived_cases task.picker block.piece block.offset with
    nothing | ⟨state, present, ⟨full, _⟩ | ⟨_, incomplete⟩⟩
  · rw [nothing] at complete
    cases complete
  · obtain ⟨assembly, found, _⟩ := id assembled
    refine ⟨assembly, found, all_eq_true.mpr ?_⟩
    intro flag member
    obtain ⟨index, got⟩ := mem_iff_getElem?.mp member
    -- the picker and the assembly have a flag for each block of the piece
    have inside : index < state.received.length := by
      have flags := (sound.consistent.filled.states _ _ present).2.received
      rw [flags, sound.layout.pieceLengthFor, ← sound.shaped _ _ found]
      exact (List.getElem?_eq_some_iff.mp got).1
    have has : (state.markReceived (block.offset / maxBlockSize)).has index = true := by
      have within : index < (state.markReceived (block.offset / maxBlockSize)).received.length := by
        rwa [PieceState.markReceived, length_set]
      rw [PieceState.has, List.getElem?_eq_getElem within]
      exact all_eq_true.mp full _ (getElem_mem within)
    have inMemory : task.Assembled block.piece index := by
      rcases has_of_markReceived has with rfl | old
      · exact assembled
      · exact kept _ aggregate index ⟨state, present, old⟩
    obtain ⟨same, again, known⟩ := inMemory
    obtain rfl := Option.mem_unique found again
    exact Option.mem_unique got known
  · rw [incomplete] at complete
    cases complete

/-- After the picker has recorded a block, nothing is lost; a piece that was completed is no
longer in progress. -/
theorem receiveBlock_spec {completed : Option Bool}
    (receives : task.receiveBlock block outside = (after, completed)) :
    (completed = none → ∃ calls, BlockCalls task.picker block calls ∧ Works calls task after) ∧
      (completed.isSome = true → ∃ evicted,
        Works (rejections evicted ++ [.blockReceived block.piece block.offset]) task after) ∧
      (Sound task → Kept task → (¬task.DropsReceived block → Sound after ∧ Kept after ∧
          (completed.isSome = true → ∀ index, ¬(after.picker.view block.piece).Received index)) ∧
        (completed = some true → ∃ assembly,
          after.pieceAssemblies.lookup block.piece = some assembly ∧ assembly.isComplete = true)) := by
  delta receiveBlock at receives
  split_ifs at receives with idle known
  · cases receives
    exact ⟨fun _ => ⟨[], .ignored (.inl idle), .refl task⟩, by simp, fun sound kept =>
      ⟨fun _ => ⟨sound, kept, by simp⟩, by simp⟩⟩
  · cases receives
    exact ⟨fun _ => ⟨[], .ignored (.inr known), .refl task⟩, by simp, fun sound kept =>
      ⟨fun _ => ⟨sound, kept, by simp⟩, by simp⟩⟩
  split at receives
  next error refused =>
    cases receives
    obtain ⟨works, shaped, keeps⟩ := drop_spec task block.piece block.offset
    refine ⟨fun _ => ⟨_, .cancelled, works⟩, by simp, fun sound kept =>
      ⟨fun careful => ⟨shaped sound, keeps kept ?_, by simp⟩, by simp⟩⟩
    intro aggregate index received
    exact careful ⟨Bool.eq_true_of_not_eq_false idle, Bool.eq_false_of_not_eq_true known,
      ⟨error, refused⟩, aggregate, index, received⟩
  next =>
    dsimp only at receives
    split at receives
    next failed stored =>
      cases receives
      obtain ⟨works, _, spec⟩ := storeBlock_spec stored
      refine ⟨fun _ => works rfl, by simp, fun sound kept => ?_⟩
      obtain ⟨shaped, here, _⟩ := spec sound kept
      exact ⟨fun _ => ⟨shaped, here, by simp⟩, by simp⟩
    next recorded stored =>
      cases receives
      obtain ⟨_, works, spec⟩ := storeBlock_spec stored
      obtain ⟨evicted, works⟩ := works rfl
      have received : Works [.blockReceived block.piece block.offset] recorded { recorded with
        picker := (recorded.picker.blockReceived block.piece block.offset).1 } := ⟨rfl, rfl, rfl⟩
      refine ⟨fun _ => ⟨_, .received evicted, works.trans received⟩,
        fun _ => ⟨evicted, works.trans received⟩, fun sound kept => ?_⟩
      obtain ⟨shaped, here, done⟩ := spec sound kept
      obtain ⟨able, assembled⟩ := done rfl
      refine ⟨fun _ => ⟨shaped.call (.blockReceived _ _), ?_, ?_⟩, ?_⟩
      · intro piece aggregate index received
        rcases (blockReceived_received received).1 with before | ⟨rfl, rfl⟩
        · exact here piece aggregate index before
        · exact assembled (able.symm.trans aggregate)
      · intro complete index received
        apply (blockReceived_received received).2 _ rfl
        by_contra incomplete
        rw [if_neg incomplete] at complete
        cases complete
      · intro completed
        split_ifs at completed with complete
        have aggregate := Option.some.inj completed
        have full := assembly_complete shaped here (able.trans aggregate) (assembled aggregate) complete
        exact full

/-- Every outcome of `handle_block`, as calls of the picker. -/
theorem handleBlock_spec (task : DownloadTask) (block : BlockEvent) (outside : Outside) :
    let after := task.handleBlock block outside
    (∃ calls, BlockCalls task.picker block calls ∧ Works calls task after) ∧
      (Sound task → Kept task → ¬task.DropsReceived block → Sound after ∧ Kept after) := by
  dsimp only [handleBlock]
  split
  next after receives =>
    obtain ⟨works, _, spec⟩ := receiveBlock_spec receives
    refine ⟨works rfl, fun sound kept careful => ?_⟩
    obtain ⟨shaped, here, _⟩ := (spec sound kept).1 careful
    exact ⟨shaped, here⟩
  next after aggregatePieceWrite receives =>
    obtain ⟨_, works, spec⟩ := receiveBlock_spec receives
    obtain ⟨evicted, works⟩ := works rfl
    obtain ⟨finished, finishes⟩ := finishPiece_spec after block.piece aggregatePieceWrite outside
    refine ⟨?_, fun sound kept careful => ?_⟩
    · rcases finished with finished | finished
      · exact ⟨_, .received evicted, works.followed finished⟩
      · have both := works.trans finished
        rw [append_assoc] at both
        exact ⟨_, .refused evicted, both⟩
    · obtain ⟨shaped, here, complete⟩ := (spec sound kept).1 careful
      obtain ⟨finished, aside, before⟩ := finishes shaped
      refine ⟨finished, here.aside aside (keptAt_of_none fun index received => ?_)⟩
      exact complete rfl index (before index received)

/-- The received blocks of the piece stay marked, but its assembly is gone. -/
theorem not_kept_of_dropsReceived (drops : task.DropsReceived block) :
    ¬Kept (task.handleBlock block outside) := by
  obtain ⟨active, fresh, ⟨error, refused⟩, aggregate, index, received⟩ := drops
  let cancelled := { task with picker := task.picker.cancelRequest block.piece block.offset }
  have dropped : task.handleBlock block outside = cancelled.removePieceAssembly block.piece := by
    unfold handleBlock receiveBlock
    simp only [active, fresh, refused, Bool.true_eq_false, Bool.false_eq_true, if_false]
    rfl
  rw [dropped]
  intro kept
  have able := (canAggregatePieceWrite_removePieceAssembly cancelled block.piece
    block.piece).trans aggregate
  obtain ⟨assembly, present, _⟩ := kept block.piece able index (by
    rw [(removePieceAssembly_works _ _).picker]
    exact cancelRequest_received.mpr received)
  obtain ⟨bytes, removed⟩ := removePieceAssembly_frame cancelled block.piece
  rw [removed, lookup_erase] at present
  cases present

end Handling

/-! ### The other events -/

/-- The restored pieces of a task after a partial piece was restored. -/
theorem restorePartialPiece_cases (task : DownloadTask) (piece : Nat) (blocks : List Nat) :
    ∃ restoredPartialPieces, task.restorePartialPiece piece blocks =
        { task with
          picker := task.picker.restorePartialPiece piece blocks
          restoredPartialPieces } ∧
      (restoredPartialPieces = insert piece task.restoredPartialPieces ∨
        restoredPartialPieces = task.restoredPartialPieces ∧
          ∀ block, ¬((task.picker.restorePartialPiece piece blocks).view piece).Received block) := by
  unfold restorePartialPiece
  dsimp only
  split
  next absent =>
    refine ⟨_, rfl, .inr ⟨rfl, ?_⟩⟩
    rintro block ⟨state, present, _⟩
    cases absent.symm.trans present
  next state present =>
    split
    next => exact ⟨_, rfl, .inl rfl⟩
    next nothing =>
      refine ⟨_, rfl, .inr ⟨rfl, ?_⟩⟩
      rintro block ⟨found, stored, has⟩
      obtain rfl := Option.mem_unique present stored
      apply nothing
      refine any_eq_true.mpr ⟨true, ?_, rfl⟩
      exact mem_of_getElem? (has_iff.mp has)

theorem restorePartialPiece_sound (sound : Sound task) (kept : Kept task) (piece : Nat)
    (blocks : List Nat) :
    Sound (task.restorePartialPiece piece blocks) ∧ Kept (task.restorePartialPiece piece blocks) := by
  obtain ⟨restored, same, origin⟩ := restorePartialPiece_cases task piece blocks
  rw [same]
  have called := sound.call (.restorePartialPiece piece blocks)
  refine ⟨{ called with }, ?_⟩
  have members : ∀ other, other ≠ piece → (other ∈ restored ↔ other ∈ task.restoredPartialPieces) := by
    intro other different
    rcases origin with rfl | ⟨rfl, _⟩
    · exact Finset.mem_insert.trans (or_iff_right different)
    · exact Iff.rfl
  have aside : Aside piece task { task with
      picker := task.picker.restorePartialPiece piece blocks, restoredPartialPieces := restored } := by
    refine ⟨?_, ?_, fun _ _ => rfl⟩
    · exact fun other different => canAggregatePieceWrite_congr rfl rfl rfl (members other different)
    · exact fun other block different received => restorePartialPiece_received different received
  apply kept.aside aside
  · rcases origin with rfl | ⟨rfl, nothing⟩
    · intro aggregate
      unfold canAggregatePieceWrite at aggregate
      split at aggregate
      next => cases aggregate
      next => simp at aggregate
    · exact keptAt_of_none nothing

theorem invalidatePiece_sound (sound : Sound task) (kept : Kept task) (piece : Nat) :
    Sound (task.invalidatePiece piece) ∧ Kept (task.invalidatePiece piece) := by
  have rejected := sound.rejectPiece piece
  refine ⟨{ rejected with }, ?_⟩
  apply kept.aside ((rejectPiece_aside sound.consistent piece).trans (unrestored_aside _ piece))
  exact keptAt_of_none (not_received_rejectPiece sound.consistent piece)

/-- An event that loses the partial data of a piece. -/
def Loses (task : DownloadTask) : Event → Prop
  | .handleBlock block _ => task.DropsReceived block
  | _ => False

theorem step_sound (sound : Sound task) (kept : Kept task) {event : Event}
    (careful : ¬task.Loses event) : Sound (task.step event) ∧ Kept (task.step event) := by
  cases event with
  | handleBlock block outside => exact (task.handleBlock_spec block outside).2 sound kept careful
  | enforcePieceAssemblyBudget currentPiece =>
    obtain ⟨shaped, keeps, _⟩ := enforcePieceAssemblyBudget_spec sound currentPiece
    exact ⟨shaped, keeps kept⟩
  | clearPieceAssemblies => exact ⟨sound.clearPieceAssemblies, kept.clearPieceAssemblies sound⟩
  | restorePartialPiece piece blocks => exact restorePartialPiece_sound sound kept piece blocks
  | invalidatePiece piece => exact invalidatePiece_sound sound kept piece
  | pickerCall call other =>
    refine ⟨sound.call call, ?_⟩
    intro piece aggregate block received
    exact kept piece aggregate block (step_received other received)

end Operations

/-! ## Whole histories -/

/-- What a task must not lose: every received block of an aggregated piece is in its
assembly, and a piece that a block completes in the picker has a complete assembly then. -/
structure NoLostPartialData (task : DownloadTask) : Prop where
  kept : ∀ piece state (block : Nat), task.picker.inProgress.lookup piece = some state →
    task.canAggregatePieceWrite piece = true → state.received[block]? = some true →
    ∃ assembly, task.pieceAssemblies.lookup piece = some assembly ∧
      assembly.received[block]? = some true
  complete : ∀ block outside after, task.receiveBlock block outside = (after, some true) →
    ∃ assembly, after.pieceAssemblies.lookup block.piece = some assembly ∧
      assembly.isComplete = true

/-- No event of a history loses partial data. -/
def NeverLoses (task : DownloadTask) : List Event → Prop
  | [] => True
  | event :: rest => ¬task.Loses event ∧ NeverLoses (task.step event) rest

variable {task : DownloadTask}

theorem kept_iff :
    Kept task ↔ ∀ piece state (block : Nat), task.picker.inProgress.lookup piece = some state →
      task.canAggregatePieceWrite piece = true → state.received[block]? = some true →
      ∃ assembly, task.pieceAssemblies.lookup piece = some assembly ∧
        assembly.received[block]? = some true := by
  constructor
  · intro kept piece state block present aggregate got
    exact kept piece aggregate block ⟨state, present, has_iff.mpr got⟩
  · rintro kept piece aggregate block ⟨state, present, has⟩
    exact kept piece state block present aggregate (has_iff.mp has)

theorem Kept.noLostPartialData (kept : Kept task) (sound : Sound task) : NoLostPartialData task :=
  ⟨kept_iff.mp kept, fun _ _ _ receives => ((receiveBlock_spec receives).2.2 sound kept).2 rfl⟩

theorem run_noLostPartialData (sound : Sound task) (kept : Kept task) {events : List Event} :
    (∀ earlier, earlier <+: events → NoLostPartialData (task.run earlier)) ↔
      NeverLoses task events := by
  induction events generalizing task with
  | nil =>
    refine iff_of_true ?_ trivial
    intro earlier prefixed
    rw [prefix_nil.mp prefixed]
    exact kept.noLostPartialData sound
  | cons event rest ih =>
    constructor
    · intro every
      have careful : ¬task.Loses event := by
        intro loses
        have next := every [event] (prefix_append [event] rest)
        cases event with
        | handleBlock block outside =>
          exact not_kept_of_dropsReceived loses (kept_iff.mpr next.kept)
        | _ => exact loses
      obtain ⟨shaped, later⟩ := step_sound sound kept careful
      refine ⟨careful, (ih shaped later).mp ?_⟩
      intro earlier prefixed
      exact every (event :: earlier) (cons_prefix_cons.mpr ⟨rfl, prefixed⟩)
    · rintro ⟨careful, never⟩ earlier prefixed
      obtain ⟨shaped, later⟩ := step_sound sound kept careful
      cases earlier with
      | nil => exact kept.noLostPartialData sound
      | cons first others =>
        obtain ⟨rfl, shorter⟩ := cons_prefix_cons.mp prefixed
        exact (ih shaped later).mpr never others shorter

/-! ## A block with bytes in its padding -/

/-- Two blocks in one piece, of which the second ends with padding. -/
def paddedPiece : PieceMap where
  pieceLength := 32768
  totalLength := 32768
  pieceCount := 1
  files := [⟨0, PieceMap.samplePath, 0, 20000⟩, ⟨1, PieceMap.samplePath, 20000, 12768⟩]
  paddingFileIndices := [1]
  positive := twoBlocks.positive
  pieceFits := twoBlocks.pieceFits
  spans := rfl
  content := twoBlocks.content
  distinct := by decide
  counted := twoBlocks.counted
  padding := ⟨[1], rfl, by decide⟩

/-- Memory is granted and the disk works. -/
def willing : Outside where
  now := 0
  memoryGranted := true
  blockWritten := true
  pieceWritten := true
  sha1 _ := .ok ⟨List.replicate 20 0, List.length_replicate⟩
  verifyPiece := .valid

/-- A task of one piece, which fits in memory. -/
def padded : DownloadTask :=
  new paddedPiece [⟨List.replicate 20 0, List.length_replicate⟩] rfl 65536

/-- A task that asked for both blocks. -/
def asking : DownloadTask :=
  padded.run [.pickerCall .pickFromSeed rfl, .pickerCall .pickFromSeed rfl]

/-- After the first block arrived, a second one with bytes in its padding makes the task drop
the assembly; the picker still counts the first block as received. -/
theorem bad_padding_loses_block :
    ∃ data task, data = List.replicate 16384 1 ∧
      task = padded.run [.pickerCall .pickFromSeed rfl, .pickerCall .pickFromSeed rfl,
        .handleBlock ⟨0, 0, data⟩ willing, .handleBlock ⟨0, 16384, data⟩ willing] ∧
      task.canAggregatePieceWrite 0 = true ∧
      (task.picker.inProgress.lookup 0).map PieceState.received = some [true, false] ∧
      task.pieceAssemblies.lookup 0 = none := by
  have ran (data : List UInt8) : padded.run [.pickerCall .pickFromSeed rfl,
      .pickerCall .pickFromSeed rfl, .handleBlock ⟨0, 0, data⟩ willing,
      .handleBlock ⟨0, 16384, data⟩ willing] =
        (asking.handleBlock ⟨0, 0, data⟩ willing).handleBlock ⟨0, 16384, data⟩ willing := rfl
  refine ⟨_, _, rfl, rfl, ?_⟩
  rw [ran]
  decide +kernel

/-- A task keeps its partial data at every moment of a history exactly when no block of the
history fails the check of its padding while other blocks of its piece are in memory. -/
theorem no_lost_partial_data (pieceMap : PieceMap) (pieces : List (Digest 20))
    (hashed : pieces.length = pieceMap.pieceCount) (softCap : Nat) (events : List Event) :
    (∀ earlier, earlier <+: events →
      NoLostPartialData ((new pieceMap pieces hashed softCap).run earlier)) ↔
      NeverLoses (new pieceMap pieces hashed softCap) events := by
  have sound : Sound (new pieceMap pieces hashed softCap) :=
    ⟨ofPieceMap_consistent pieceMap, SameLayout.refl _, nofun⟩
  refine run_noLostPartialData sound ?_
  rintro piece _ block ⟨state, present, _⟩
  cases present

theorem padded_keeps_block :
    NoLostPartialData ((new paddedPiece [⟨List.replicate 20 0, List.length_replicate⟩] rfl 65536).run
      [.pickerCall .pickFromSeed rfl, .pickerCall .pickFromSeed rfl,
        .handleBlock ⟨0, 0, List.replicate 16384 1⟩ willing]) := by
  refine (no_lost_partial_data paddedPiece _ rfl 65536 _).mpr ?_ _ List.prefix_rfl
  refine ⟨id, id, ?_, trivial⟩
  have accepted : validatePaddingBlock paddedPiece 0 0 (List.replicate 16384 1) = .ok () := by
    decide +kernel
  rintro ⟨_, _, ⟨error, refused⟩, _⟩
  cases accepted.symm.trans refused

end DownloadTask

end TorrentNG.Download
