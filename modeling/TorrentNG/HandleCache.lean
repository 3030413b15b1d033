import TorrentNG.Runs
import TorrentNG.Tables

/-!
# The cache of open files of `rt-storage`

Open files are kept under their path and access. A tick counter numbers the uses: a second map,
ordered by tick, leads to the entry to evict. The two maps are changed one after the other, on a
hit, on a replacement and on an invalidation, and stay inverse to each other; the entry of the
lowest tick is the one whose last recorded use is oldest. An opener that finds the entry of
another thread is handed that entry without a new tick, which is a use that is not recorded.

All operations run under one lock and are taken one after another, in any order. Whether the file
behind a handle is still the one at its path, and the time, are what an operation finds. An open
that fails does not reach the cache.
-/

namespace TorrentNG.Storage

open AList List Runs Tables Option

inductive Access where
  | read
  | write
deriving DecidableEq

variable {Path File : Type} [DecidableEq Path]

abbrev Key (Path : Type) := Path × Access

structure Entry (File : Type) where
  handle : File
  tick : Nat
  lastUsed : Nat

/-- Ticks are of type `u64`; `lru` is ordered by them. -/
structure Inner (Path File : Type) where
  map : Table (Key Path) (Entry File)
  lru : Table Nat (Key Path)
  nextTick : Nat

namespace Inner

def new : Inner Path File := ⟨∅, ∅, 0⟩

variable (inner : Inner Path File) (key : Key Path)

/-- The entry of a key, if its file is still the one at the path. -/
def current (matchesPath : File → Bool) :
    Option (Entry File) :=
  (inner.map.lookup key).filter fun entry => matchesPath entry.handle

/-- Drop a key from both maps. -/
def remove : Inner Path File where
  __ := inner
  map := inner.map.erase key
  lru := match inner.map.lookup key with
    | none => inner.lru
    | some entry => inner.lru.erase entry.tick

def evictOldest : Inner Path File × Bool :=
  match inner.lru.entries.argmin Sigma.fst with
  | none => (inner, false)
  | some ⟨tick, key⟩ =>
    ({ inner with map := inner.map.erase key, lru := inner.lru.erase tick }, true)

/-- The loop, for a number of rounds. -/
def evictRounds (inner : Inner Path File) (cap : Nat) : Nat → Inner Path File
  | 0 => inner
  | rounds + 1 =>
    if cap < size inner.map then
      match inner.evictOldest with
      | (inner, true) => evictRounds inner cap rounds
      | (inner, false) => inner
    else inner

/-- Each round takes an entry of `lru`. -/
def evictToCap (cap : Nat) : Inner Path File :=
  inner.evictRounds cap (size inner.lru)

/-- A use of a key, under the next tick. -/
def record (file : File) (now : Nat) :
    Inner Path File where
  map := inner.map.insert key ⟨file, inner.nextTick, now⟩
  lru := inner.lru.insert inner.nextTick key
  nextTick := (inner.nextTick + 1) % 2 ^ 64

def touch (matchesPath : File → Bool) (now : Nat) :
    Inner Path File × Option File :=
  match inner.current key matchesPath with
  | none => (inner.remove key, none)
  | some entry =>
    ({ inner with lru := inner.lru.erase entry.tick }.record key entry.handle now,
      some entry.handle)

/-- The part of `open_and_insert` under the lock, for the file it opened. -/
def insertOpened (cap : Nat) (key : Key Path) (file : File)
    (matchesPath : File → Bool) (now : Nat) : Inner Path File × Option File :=
  match inner.current key matchesPath with
  | some existing => (inner, some existing.handle)
  | none => (((inner.remove key).record key file now).evictToCap cap, some file)

def sweepIdle (idleTtl now : Nat) : Inner Path File × Nat :=
  let stale :=
    (inner.map.entries.filter fun entry => idleTtl ≤ now - entry.2.lastUsed).map Sigma.fst
  (stale.foldl remove inner, stale.length)

end Inner

/-- What threads do to a cache. -/
inductive Operation (Path File : Type) where
  | get (key : Key Path) (matchesPath : File → Bool) (now : Nat)
  | insert (key : Key Path) (file : File) (matchesPath : File → Bool) (now : Nat)
  | sweep (now : Nat)
  /-- A thread that waits for a descriptor. -/
  | evict

structure HandleCache where
  cap : Nat
  idleTtl : Nat

namespace HandleCache

variable (cache : HandleCache)

/-- The cache after an operation, and the file it returns. -/
def step (inner : Inner Path File) :
    Operation Path File → Inner Path File × Option File
  | .get key matchesPath now => inner.touch key matchesPath now
  | .insert key file matchesPath now => inner.insertOpened cache.cap key file matchesPath now
  | .sweep now => ((inner.sweepIdle cache.idleTtl now).1, none)
  | .evict => (inner.evictOldest.1, none)

variable (inner : Inner Path File)

/-- The operations that are recorded as a use of their key. -/
def recorded : Operation Path File → Option (Key Path)
  | .get key matchesPath _ => if (inner.current key matchesPath).isSome then some key else none
  | .insert key _ matchesPath _ => if (inner.current key matchesPath).isSome then none else some key
  | _ => none

/-- The operations that return a file under their key. -/
def handedOut : Operation Path File → Option (Key Path)
  | .insert key _ _ _ => some key
  | operation => recorded inner operation

/-- The operations that evict files that are not stale. -/
def evicts : Operation Path File → Bool
  | .insert .. => true
  | .evict => true
  | _ => false

/-- The cache after an operation, beside the keys used so far, from the latest use on. -/
def observe (uses : Inner Path File → Operation Path File → Option (Key Path))
    (state : Inner Path File × List (Key Path)) (operation : Operation Path File) :
    Inner Path File × List (Key Path) :=
  ((cache.step state.1 operation).1, (uses state.1 operation).toList ++ state.2)

def run (uses : Inner Path File → Operation Path File → Option (Key Path))
    (operations : List (Operation Path File)) : Inner Path File × List (Key Path) :=
  operations.foldl (cache.observe uses) (Inner.new, [])

/-- An opener finds an entry under its key whose file is still the one at the path. -/
def FindsCurrent : Operation Path File → Prop
  | .insert key _ matchesPath _ =>
    ∃ entry, inner.map.lookup key = some entry ∧ matchesPath entry.handle = true
  | _ => False

/-- There is no room: a new key comes to a full cache, or a thread wants a descriptor. -/
def Overflows (cache : HandleCache) (inner : Inner Path File) : Operation Path File → Prop
  | .insert key _ _ _ => key ∉ inner.map ∧ size inner.map = cache.cap
  | .evict => 0 < size inner.map
  | _ => False

/-- The keys in the cache, with the one of the operation. -/
def Held (operation : Operation Path File) (key : Key Path) : Prop :=
  key ∈ inner.map ∨ handedOut inner operation = some key

/-- Without room exactly the key goes whose last use is oldest, and otherwise none does. -/
structure EvictsOldest (cache : HandleCache) (inner : Inner Path File)
    (operation : Operation Path File) (after : Inner Path File) (uses : List (Key Path)) : Prop where
  full : cache.Overflows inner operation → ∃ oldest, Held inner operation oldest ∧
    (∀ key, Held inner operation key → key ≠ oldest → uses.idxOf key < uses.idxOf oldest) ∧
    ∀ key, key ∈ after.map ↔ key ≠ oldest ∧ Held inner operation key
  room : ¬cache.Overflows inner operation → ∀ key, key ∈ after.map ↔ Held inner operation key

end HandleCache

/-! ## The two maps -/

/-- The place of an entry in the order. -/
def place (entry : Sigma fun _ : Key Path => Entry File) : Sigma fun _ : Nat => Key Path :=
  ⟨entry.2.tick, entry.1⟩

/-- `lru` holds the places of the entries, and a tick is the number of uses before the last
one of its key. -/
structure Indexed (inner : Inner Path File) (uses : List (Key Path)) : Prop where
  places : inner.lru.entries.Perm (inner.map.entries.map place)
  clock : inner.nextTick = uses.length
  recent : ∀ entry ∈ inner.map.entries, entry.2.tick + uses.idxOf entry.1 + 1 = uses.length

variable {inner : Inner Path File} {uses : List (Key Path)} {key : Key Path}
  (indexed : Indexed inner uses)

include indexed

namespace Indexed

theorem size_eq : size inner.lru = size inner.map := indexed.places.length_eq.trans (length_map _)

/-- What is dropped is one entry and its place. -/
theorem erase {entry : Entry File} (present : inner.map.lookup key = some entry) :
    Indexed { inner with map := inner.map.erase key, lru := inner.lru.erase entry.tick } uses := by
  have others := entries_perm_erase present
  have places := indexed.places.trans (others.map place)
  have found := mem_entries_iff.mp (places.mem_iff.mpr mem_cons_self)
  refine ⟨((entries_perm_erase found).symm.trans places).cons_inv, indexed.clock,
    fun entry inside => ?_⟩
  exact indexed.recent entry (others.mem_iff.mpr (.tail _ inside))

theorem remove (key : Key Path) : Indexed (inner.remove key) uses := by
  rw [Inner.remove]
  split
  next absent =>
    rw [erase_of_lookup_none absent]
    exact indexed
  next entry present => exact indexed.erase present

/-- A use is recorded under the next tick. -/
theorem record (absent : inner.map.lookup key = none)
    (short : uses.length + 1 < 2 ^ 64) (file : File) (now : Nat) :
    Indexed (inner.record key file now) (key :: uses) := by
  have fresh : inner.lru.lookup inner.nextTick = none := by
    by_contra taken
    obtain ⟨other, found⟩ := ne_none_iff_exists'.mp taken
    obtain ⟨entry, inside, same⟩ :=
      mem_map.mp (indexed.places.mem_iff.mp (mem_entries_iff.mpr found))
    have earlier := indexed.recent entry inside
    have tick : entry.2.tick = inner.nextTick := congrArg Sigma.fst same
    rw [indexed.clock] at tick
    omega
  have map : (inner.record key file now).map.entries = ⟨key, _⟩ :: inner.map.entries :=
    congrArg (fun rest : Table _ _ => _ :: rest.entries) (erase_of_lookup_none absent)
  have lru : (inner.record key file now).lru.entries = ⟨_, key⟩ :: inner.lru.entries :=
    congrArg (fun rest : Table _ _ => _ :: rest.entries) (erase_of_lookup_none fresh)
  refine ⟨?_, ?_, ?_⟩
  · rw [map, lru]
    exact indexed.places.cons _
  · rw [Inner.record, indexed.clock, Nat.mod_eq_of_lt short, length_cons]
  · rw [map, forall_mem_cons, length_cons, idxOf_cons_self, indexed.clock]
    refine ⟨rfl, fun entry inside => ?_⟩
    have other : key ≠ entry.1 := by
      rintro rfl
      rw [mem_entries_iff.mp inside] at absent
      cases absent
    rw [idxOf_cons_ne _ other, ← indexed.recent entry inside]
    rfl

end Indexed

/-- The entry of the lowest tick is evicted, if there is one. -/
theorem evictOldest_spec (some : 0 < size inner.map) : ∃ oldest after,
    inner.evictOldest = (after, true) ∧ Indexed after uses ∧ oldest ∈ inner.map ∧
      after.map = inner.map.erase oldest ∧ size after.map + 1 = size inner.map ∧
      ∀ key ∈ inner.map, key ≠ oldest → uses.idxOf key < uses.idxOf oldest := by
  rw [Inner.evictOldest]
  split
  next none =>
    have empty : size inner.lru = 0 := length_eq_zero_iff.mpr (argmin_eq_none.mp none)
    rw [indexed.size_eq] at empty
    omega
  next lowest =>
    obtain ⟨⟨key, entry⟩, present, same⟩ :=
      mem_map.mp (indexed.places.mem_iff.mp (argmin_mem lowest))
    cases same
    have found := mem_entries_iff.mp present
    refine ⟨key, _, rfl, indexed.erase found, lookup_isSome.mp (by rw [found]; rfl), rfl, ?_,
      fun other inside different => ?_⟩
    · rw [size_eq_total, size_eq_total, ← total_erase _ found]
    · obtain ⟨entry, inside⟩ := exists_of_mem_keys inside
      have least := le_of_mem_argmin (indexed.places.mem_iff.mpr (mem_map_of_mem inside)) lowest
      have first := indexed.recent _ present
      have second := indexed.recent _ inside
      dsimp only [place] at least first second
      refine lt_of_le_of_ne (by omega) fun same => different ?_
      exact (idxOf_inj (idxOf_lt_length_iff.mp (by omega))).mp same

/-- One entry more than the capacity takes one round of the loop. -/
theorem evictToCap_eq {cap : Nat} (fits : size inner.map ≤ cap + 1) :
    inner.evictToCap cap = if cap < size inner.map then inner.evictOldest.1 else inner := by
  have done {inner : Inner Path File} (fits : ¬cap < size inner.map) (rounds : Nat) :
      inner.evictRounds cap rounds = inner := by
    cases rounds with
    | zero => rfl
    | succ rounds => rw [Inner.evictRounds, if_neg fits]
  rw [Inner.evictToCap, indexed.size_eq]
  split_ifs with full
  · obtain ⟨oldest, after, evicted, _, _, _, fewer, _⟩ := evictOldest_spec indexed (by omega)
    rw [← fewer, Inner.evictRounds, if_pos full, evicted]
    exact done (by omega) _
  · exact done full _

/-! ## Operations -/

namespace HandleCache

/-- A hit moves its key to the end of the order. -/
theorem touch_hit (short : uses.length + 1 < 2 ^ 64)
    {matchesPath : File → Bool} {entry : Entry File}
    (hit : inner.current key matchesPath = some entry) (now : Nat) :
    Indexed (inner.touch key matchesPath now).1 (key :: uses) ∧
      size (inner.touch key matchesPath now).1.map = size inner.map := by
  have present := (filter_eq_some_iff.mp hit).1
  have again := (indexed.erase present).record (lookup_erase key inner.map) short entry.handle now
  rw [Inner.record] at again
  dsimp only at again
  rw [insert_erase_self] at again
  rw [Inner.touch, hit]
  exact ⟨again, size_replace present _⟩

/-- The loop of `sweep_idle`. -/
theorem foldl_remove (keys : List (Key Path)) : Indexed (keys.foldl Inner.remove inner) uses ∧
      size (keys.foldl Inner.remove inner).map ≤ size inner.map := by
  induction keys generalizing inner with
  | nil => exact ⟨indexed, Nat.le_refl _⟩
  | cons key rest ih =>
    obtain ⟨later, less⟩ := ih (indexed.remove key)
    exact ⟨later, less.trans (size_erase_le inner.map key)⟩

variable (cache : HandleCache)

/-- Evicting from a cache that holds the key of the operation. -/
theorem evictOldest_exact {before : Inner Path File}
    {operation : Operation Path File} (overflows : cache.Overflows before operation)
    (members : ∀ key, key ∈ inner.map ↔ Held before operation key) (some : 0 < size inner.map) :
    Indexed inner.evictOldest.1 uses ∧ size inner.evictOldest.1.map + 1 = size inner.map ∧
      cache.EvictsOldest before operation inner.evictOldest.1 uses := by
  obtain ⟨oldest, after, evicted, later, old, erased, fewer, others⟩ := evictOldest_spec indexed some
  simp only [members] at old others
  rw [evicted]
  refine ⟨later, fewer, fun _ => ⟨oldest, old, others, fun key => ?_⟩, absurd overflows⟩
  rw [erased, mem_erase, members]

/-- A miss stores its key, which is one key more or replaces an entry. -/
theorem insert_miss (fits : size inner.map ≤ cache.cap)
    (short : uses.length + 1 < 2 ^ 64) (key : Key Path) (file : File) (matchesPath : File → Bool)
    (now : Nat) :
    let after := ((inner.remove key).record key file now).evictToCap cache.cap
    Indexed after (key :: uses) ∧ size after.map ≤ cache.cap ∧
      cache.EvictsOldest inner (.insert key file matchesPath now) after (key :: uses) := by
  have indexed := (indexed.remove key).record (lookup_erase key inner.map) short file now
  have map : ((inner.remove key).record key file now).map = inner.map.insert key _ :=
    insert_erase_self ..
  generalize (inner.remove key).record key file now = stored at indexed map
  have members (other : Key Path) :
      other ∈ stored.map ↔ Held inner (.insert key file matchesPath now) other := by
    rw [map, mem_insert, or_comm, eq_comm, ← some_inj]
    rfl
  have size_le : size stored.map ≤ cache.cap + 1 ∧
      (cache.Overflows inner (.insert key file matchesPath now) ↔ cache.cap < size stored.map) := by
    rw [Overflows, map]
    by_cases present : key ∈ inner.map
    · obtain ⟨entry, found⟩ := isSome_iff_exists.mp (lookup_isSome.mpr present)
      rw [size_replace found]
      exact ⟨by omega, iff_of_false (fun full => full.1 present) (Nat.not_lt.mpr fits)⟩
    · rw [size_insert_fresh (lookup_eq_none.mpr present), and_iff_right present]
      omega
  obtain ⟨small, overflows⟩ := size_le
  rw [evictToCap_eq indexed small]
  split_ifs with full
  · obtain ⟨later, fewer, exact⟩ :=
      evictOldest_exact indexed cache (overflows.mpr full) members (by omega)
    exact ⟨later, by omega, exact⟩
  · exact ⟨indexed, Nat.not_lt.mp full, fun excess => absurd (overflows.mp excess) full,
      fun _ => members⟩

theorem step_spec (fits : size inner.map ≤ cache.cap)
    (short : uses.length + 1 < 2 ^ 64) (operation : Operation Path File) :
    let after := (cache.step inner operation).1
    let uses := (recorded inner operation).toList ++ uses
    Indexed after uses ∧ size after.map ≤ cache.cap ∧
      (evicts operation = true → cache.EvictsOldest inner operation after uses) := by
  cases operation with
  | get key matchesPath now =>
    rw [step, recorded]
    cases hit : inner.current key matchesPath with
    | none =>
      rw [Inner.touch, hit]
      exact ⟨indexed.remove key, (size_erase_le inner.map key).trans fits, nofun⟩
    | some entry =>
      obtain ⟨later, same⟩ := touch_hit indexed short hit now
      exact ⟨later, same ▸ fits, nofun⟩
  | insert key file matchesPath now =>
    rw [step, recorded, Inner.insertOpened]
    cases hit : inner.current key matchesPath with
    | some entry =>
      have present : key ∈ inner.map :=
        lookup_isSome.mp (by rw [(filter_eq_some_iff.mp hit).1]; rfl)
      refine ⟨indexed, fits, fun _ => ⟨fun full => absurd present full.1, fun _ other => ?_⟩⟩
      refine ⟨.inl, fun held => held.elim id fun same => ?_⟩
      rwa [← Option.some.inj same]
    | none =>
      obtain ⟨later, small, exact⟩ := insert_miss indexed cache fits short key file matchesPath now
      exact ⟨later, small, fun _ => exact⟩
  | sweep now =>
    obtain ⟨later, less⟩ := foldl_remove indexed _
    exact ⟨later, less.trans fits, nofun⟩
  | evict =>
    have members (key : Key Path) : key ∈ inner.map ↔ Held inner .evict key :=
      (or_iff_left nofun).symm
    by_cases some : 0 < size inner.map
    · have overflows : cache.Overflows inner .evict := some
      obtain ⟨later, fewer, exact⟩ := evictOldest_exact indexed cache overflows members some
      exact ⟨later, (Nat.le_succ _).trans (fewer.trans_le fits), fun _ => exact⟩
    · have empty : inner.lru.entries = [] :=
        length_eq_zero_iff.mp (indexed.size_eq.trans (Nat.eq_zero_of_not_pos some))
      have unchanged : inner.evictOldest.1 = inner := by
        rw [Inner.evictOldest, empty]
        rfl
      rw [step, unchanged]
      exact ⟨indexed, fits, fun _ => ⟨fun excess => absurd excess some, fun _ => members⟩⟩

omit indexed

/-- A run of fewer than `2 ^ 64` operations keeps the maps inverse and within the capacity. -/
theorem run_spec {operations : List (Operation Path File)}
    (short : operations.length + 1 < 2 ^ 64) :
    let (inner, uses) := cache.run recorded operations
    Indexed inner uses ∧ size inner.map ≤ cache.cap ∧ uses.length ≤ operations.length := by
  induction operations using List.reverseRecOn with
  | nil =>
    exact ⟨⟨.nil, rfl, nofun⟩, Nat.zero_le _, Nat.le_refl _⟩
  | append_singleton earlier operation ih =>
    rw [length_append, length_singleton] at short ⊢
    obtain ⟨indexed, fits, count⟩ := ih (by omega)
    obtain ⟨later, small, _⟩ := step_spec indexed cache fits (by omega) operation
    rw [run, foldl_append, ← run]
    refine ⟨later, small, ?_⟩
    rw [length_append, Nat.add_comm]
    exact Nat.add_le_add count length_toList_le

/-- Without openers that find a current entry, all uses are recorded. -/
theorem foldl_observe_eq {operations : List (Operation Path File)}
    {state : Inner Path File × List (Key Path)}
    (misses : Each (fun inner operation => (cache.step inner operation).1)
      (fun inner operation => ¬FindsCurrent inner operation) state.1 operations) :
    operations.foldl (cache.observe handedOut) state =
      operations.foldl (cache.observe recorded) state := by
  induction operations generalizing state with
  | nil => rfl
  | cons operation rest ih =>
    have same : handedOut state.1 operation = recorded state.1 operation := by
      cases operation with
      | insert key file matchesPath now =>
        rw [handedOut, recorded, if_neg]
        intro found
        obtain ⟨entry, hit⟩ := isSome_iff_exists.mp found
        exact misses.1 ⟨entry, filter_eq_some_iff.mp hit⟩
      | _ => rfl
    rw [foldl_cons, foldl_cons, observe, observe, same]
    exact ih misses.2

/-- Both maps have the same keys, once each and no more than the capacity. An operation that
finds no room evicts exactly the key whose last recorded use is oldest. That is the one whose last
use is oldest, if no opener of the run has found a current entry under its key. -/
theorem evicts_oldest_use (cache : HandleCache) (operations : List (Operation Path File))
    (short : operations.length + 1 < 2 ^ 64) :
    let (inner, uses) := cache.run recorded operations
    inner.map.keys.Nodup ∧ (values inner.lru).Perm inner.map.keys ∧ size inner.map ≤ cache.cap ∧
      ∀ operation, evicts operation = true →
        let (after, recordedUses) := cache.observe recorded (inner, uses) operation
        cache.EvictsOldest inner operation after recordedUses ∧
        (Each (fun inner operation => (cache.step inner operation).1)
            (fun inner operation => ¬FindsCurrent inner operation) Inner.new
            (operations ++ [operation]) →
          let (after, uses) := cache.run handedOut (operations ++ [operation])
          cache.EvictsOldest inner operation after uses) := by
  obtain ⟨indexed, fits, count⟩ := run_spec cache short
  have keys := indexed.places.map Sigma.snd
  rw [List.map_map] at keys
  refine ⟨AList.keys_nodup _, keys, fits, fun operation evicting => ?_⟩
  have exact := (step_spec indexed cache fits (by omega) operation).2.2 evicting
  refine ⟨exact, fun misses => ?_⟩
  rw [run, foldl_observe_eq cache misses, List.foldl_append]
  exact exact

/-- A file is opened, or used in the meantime opened by another thread. -/
def opened (path : Nat) : Operation Nat Nat := .insert (path, .read) path (fun _ => true) 0

/-- A hit saves the first of three files in a cache for two. -/
theorem file_before_hit_evicted :
    let operations := [opened 0, opened 1, .get (0, .read) (fun _ => true) 0]
    let cache := HandleCache.mk 2 0
    let (after, uses) := cache.run handedOut (operations ++ [opened 2])
    cache.EvictsOldest (cache.run recorded operations).1 (opened 2) after uses :=
  ((evicts_oldest_use ⟨2, 0⟩ [opened 0, opened 1, .get (0, .read) (fun _ => true) 0]
    (by decide)).2.2.2 (opened 2) rfl).2 ⟨nofun, nofun, nofun, nofun, trivial⟩

/-- Of two threads that open one file, the second is given the handle of the first without a new
tick. The entry it was given is evicted before one that was used earlier, on overflow and when a
descriptor is wanted. -/
theorem handed_out_entry_evicted :
    let evicted last :=
      let after := (HandleCache.mk 3 0).run handedOut [opened 0, opened 1, opened 0, opened 2, last]
      (0, .read) ∉ after.1.map ∧ (1, .read) ∈ after.1.map ∧
        after.2.idxOf (0, .read) < after.2.idxOf (1, .read)
    evicted (opened 3) ∧ evicted .evict := by
  decide

/-! ## What the cache returns -/

variable {operations : List (Operation Path File)}

/-- The file was opened under the key. -/
def OpenedAs (operations : List (Operation Path File)) (key : Key Path) (file : File) : Prop :=
  ∃ matchesPath now, .insert key file matchesPath now ∈ operations

/-- Each entry has a file that was opened under its key. -/
def Holds (operations : List (Operation Path File)) (inner : Inner Path File) : Prop :=
  ∀ key entry, inner.map.lookup key = some entry → OpenedAs operations key entry.handle

/-- An operation returns the file it has opened, or one that was opened under the same path and
access and is still the one at the path. -/
def Returns (operations : List (Operation Path File)) : Operation Path File → File → Prop
  | .get key matchesPath _, file => matchesPath file = true ∧ OpenedAs operations key file
  | .insert key opened matchesPath _, file =>
    file = opened ∨ matchesPath file = true ∧ OpenedAs operations key file
  | _, _ => False

namespace Holds

variable (holds : Holds operations inner)

include holds

theorem current {matchesPath : File → Bool} {entry : Entry File}
    (hit : inner.current key matchesPath = some entry) :
    matchesPath entry.handle = true ∧ OpenedAs operations key entry.handle := by
  obtain ⟨present, same⟩ := filter_eq_some_iff.mp hit
  exact ⟨same, holds key entry present⟩

theorem erase {after : Inner Path File} (erased : after.map = inner.map.erase key) :
    Holds operations after := by
  intro other entry found
  rw [erased] at found
  exact holds other entry (lookup_erase_eq_some.mp found).2

theorem record {file : File} (opened : OpenedAs operations key file) (now : Nat) :
    Holds operations (inner.record key file now) := by
  intro other entry found
  rw [Inner.record] at found
  by_cases same : other = key
  · subst same
    rw [lookup_insert] at found
    obtain rfl := Option.some.inj found
    exact opened
  · exact holds other entry ((lookup_insert_ne same).symm.trans found)

theorem evictOldest : Holds operations inner.evictOldest.1 := by
  rw [Inner.evictOldest]
  split
  · exact holds
  · exact holds.erase rfl

theorem evictRounds (cap rounds : Nat) : Holds operations (inner.evictRounds cap rounds) := by
  induction rounds generalizing inner with
  | zero => exact holds
  | succ rounds ih =>
    have fewer := holds.evictOldest
    rw [Inner.evictRounds]
    split
    · split
      all_goals
        rename_i evicted
        rw [evicted] at fewer
      · exact ih fewer
      · exact fewer
    · exact holds

theorem step {operation : Operation Path File}
    (listed : operation ∈ operations) : Holds operations (cache.step inner operation).1 := by
  cases operation with
  | get key matchesPath now =>
    rw [HandleCache.step, Inner.touch]
    split
    next => exact holds.erase rfl
    next entry hit =>
      have kept : Holds operations { inner with lru := inner.lru.erase entry.tick } := holds
      exact kept.record (holds.current hit).2 now
  | insert key file matchesPath now =>
    rw [HandleCache.step, Inner.insertOpened]
    split
    next => exact holds
    next =>
      have kept : Holds operations (inner.remove key) := holds.erase rfl
      exact (kept.record ⟨matchesPath, now, listed⟩ now).evictRounds _ _
  | sweep now => exact foldlRecOn _ Inner.remove holds fun _ holds _ _ => holds.erase rfl
  | evict => exact holds.evictOldest

end Holds

/-- Whatever the threads do, a file is returned only for the path and the access that it was
opened for. -/
theorem returned_file_opened (cache : HandleCache) (operations : List (Operation Path File))
    (operation : Operation Path File) (file : File)
    (returned : (cache.step (cache.run recorded operations).1 operation).2 = some file) :
    Returns operations operation file := by
  have holds : Holds operations (cache.run recorded operations).1 :=
    foldlRecOn (motive := fun state : _ × List (Key Path) => Holds operations state.1)
      operations _ nofun fun _ holds _ listed => holds.step cache listed
  cases operation with
  | get key matchesPath now =>
    rw [step, Inner.touch] at returned
    split at returned
    next => cases returned
    next entry hit =>
      obtain rfl := Option.some.inj returned
      exact holds.current hit
  | insert key opened matchesPath now =>
    rw [step, Inner.insertOpened] at returned
    split at returned
    next entry hit =>
      obtain rfl := Option.some.inj returned
      exact .inr (holds.current hit)
    next => exact .inl (Option.some.inj returned).symm
  | sweep now => cases returned
  | evict => cases returned

/-- A file that is opened twice. -/
theorem second_open_returns_first :
    Returns [opened 0] (.insert (0, .read) 5 (fun _ => true) 0) 0 :=
  returned_file_opened ⟨2, 0⟩ [opened 0] _ 0 rfl

end HandleCache

end TorrentNG.Storage
