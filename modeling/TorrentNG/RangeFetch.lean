import Mathlib.Algebra.Ring.Nat
import Mathlib.Data.List.Range

/-!
# Fetching a range of torrents

`fetch_range_resilient` of `sidecar/src/sync.rs`. A range that the backend cannot read is halved
until the torrents at fault are alone, and these are skipped. The token that the left half was
read under is expected of the right half.

No two calls of one fetch ask for the same range, so that a function of the range is as good as
any sequence of answers. An answer is a list of torrents with the token that the backend
observed, and `none` is an error. Offsets are not negative.
-/

namespace TorrentNG.Sidecar

open List

variable {α τ : Type}

abbrev Backend (α τ : Type) :=
  (offset limit : Nat) → (snapshot : Option τ) → Option (List α × Option τ)

structure ResilientFetch (α τ : Type) where
  torrents : List α
  snapshot : Option τ
  hadErrors : Bool

section Fetch

variable [DecidableEq τ]

/-- Both halves have a token, and not the same one. -/
def mismatched : Option τ → Option τ → Bool
  | some left, some right => left ≠ right
  | _, _ => false

def fetchRangeResilient (backend : Backend α τ) (offset limit : Nat) (snapshot : Option τ) :
    ResilientFetch α τ :=
  match backend offset limit snapshot with
  | some (torrents, observed) =>
    if snapshot = none ∨ observed = snapshot then ⟨torrents, observed, false⟩
    else ⟨[], observed, true⟩
  | none =>
    if limit > 1 then
      let left := fetchRangeResilient backend offset (limit / 2) snapshot
      -- the offset of the right half is an `i64`
      if offset + limit / 2 < 2 ^ 63 then
        let right := fetchRangeResilient backend (offset + limit / 2) (limit - limit / 2)
          (left.snapshot.or snapshot)
        { torrents := left.torrents ++ right.torrents
          snapshot := left.snapshot.or right.snapshot
          hadErrors := left.hadErrors || right.hadErrors || mismatched left.snapshot right.snapshot }
      else ⟨left.torrents, left.snapshot.or snapshot, true⟩
    else ⟨[], snapshot, true⟩
termination_by limit

end Fetch

/-- A backend with a fixed list and a fixed token that fails on a range with a faulty position. -/
def steady (entries : List α) (token : Option τ) (faulty : Nat → Bool) : Backend α τ :=
  fun offset limit _ =>
    if (List.range' offset limit).any faulty then none
    else some ((List.range' offset limit).filterMap (entries[·]?), token)

/-- The entries of the range that are not faulty, in their order. -/
def sound (entries : List α) (faulty : Nat → Bool) (offset limit : Nat) : List α :=
  ((List.range' offset limit).filter (!faulty ·)).filterMap (entries[·]?)

variable {snapshot : Option τ}

section Steady

variable (entries : List α) {token : Option τ} (faulty : Nat → Bool)

/-- There is no token, or it is the one of the backend. -/
def Known (token snapshot : Option τ) : Prop := snapshot = none ∨ snapshot = token

theorem Known.or {first second : Option τ} (one : Known token first) (other : Known token second) :
    Known token (first.or second) := by
  rcases one with rfl | rfl
  · exact other
  · cases first with
    | none => exact other
    | some _ => exact .inr rfl

theorem Known.agree [DecidableEq τ] {first second : Option τ} (one : Known token first)
    (other : Known token second) : mismatched first second = false := by
  rcases one with rfl | rfl
  · rfl
  · rcases other with rfl | rfl
    · cases first <;> rfl
    · cases second <;> simp [mismatched]

theorem answered_steady {entries : List α} {faulty : Nat → Bool} {offset limit : Nat}
    {observed : Option τ} {torrents : List α}
    (answered : steady entries token faulty offset limit snapshot = some (torrents, observed)) :
    (List.range' offset limit).any faulty = false ∧
      torrents = (List.range' offset limit).filterMap (entries[·]?) ∧ observed = token := by
  unfold steady at answered
  split_ifs at answered with failed
  obtain ⟨rfl, rfl⟩ := Prod.mk.inj (Option.some.inj answered)
  exact ⟨eq_false_of_ne_true failed, rfl, rfl⟩

theorem fetch_steady [DecidableEq τ] {offset limit : Nat} (positive : 0 < limit)
    (fits : offset + limit < 2 ^ 63) (known : Known token snapshot) :
    let fetched := fetchRangeResilient (steady entries token faulty) offset limit snapshot
    fetched.torrents = sound entries faulty offset limit ∧
      fetched.hadErrors = (List.range' offset limit).any faulty ∧
      Known token fetched.snapshot := by
  fun_induction fetchRangeResilient (steady entries token faulty) offset limit snapshot with
  | case1 offset limit snapshot torrents observed answered fresh =>
    obtain ⟨clean, rfl, rfl⟩ := answered_steady answered
    refine ⟨?_, clean.symm, .inr rfl⟩
    rw [sound, filter_eq_self.mpr (by simpa using clean)]
  | case2 offset limit snapshot torrents observed answered stale =>
    obtain ⟨-, -, rfl⟩ := answered_steady answered
    exact absurd (known.imp_right Eq.symm) stale
  | case3 offset limit snapshot failed more left fitting right ihLeft ihRight =>
    obtain ⟨leftTorrents, leftErrors, leftKnown⟩ := ihLeft (by omega) (by omega) known
    obtain ⟨rightTorrents, rightErrors, rightKnown⟩ :=
      ihRight (by omega) (by omega) (leftKnown.or known)
    have whole : List.range' offset (limit / 2) ++
        List.range' (offset + limit / 2) (limit - limit / 2) = List.range' offset limit := by
      rw [range'_append_1, Nat.add_sub_cancel' (Nat.div_le_self limit 2)]
    refine ⟨?_, ?_, leftKnown.or rightKnown⟩
    · rw [leftTorrents, rightTorrents, sound, sound, sound, ← filterMap_append,
        ← filter_append, whole]
    · rw [leftErrors, rightErrors, leftKnown.agree rightKnown, Bool.or_false, ← any_append, whole]
  | case4 offset limit snapshot failed more left overflow =>
    exact absurd (by omega) overflow
  | case5 offset limit snapshot failed single =>
    obtain rfl : limit = 1 := by omega
    have here : faulty offset = true := by simpa [steady] using failed
    refine ⟨?_, ?_, known⟩
    · simp [sound, here]
    · simp [here]

end Steady

/-- A fetch keeps the token that was expected, and what it returns comes from the token that it
reports. -/
structure Traced (origin : α → Option τ) (snapshot : Option τ) (fetched : ResilientFetch α τ) :
    Prop where
  expected : snapshot ≠ none → fetched.snapshot = snapshot
  origins : ∀ torrent ∈ fetched.torrents,
    origin torrent = fetched.snapshot ∨ origin torrent = none ∧ snapshot = none

theorem Traced.append {origin : α → Option τ} {left right : ResilientFetch α τ}
    (front : Traced origin snapshot left)
    (back : Traced origin (left.snapshot.or snapshot) right) (hadErrors : Bool) :
    Traced origin snapshot
      ⟨left.torrents ++ right.torrents, left.snapshot.or right.snapshot, hadErrors⟩ := by
  obtain ⟨torrents, token, _⟩ := left
  cases token with
  | some token =>
    have same : right.snapshot = some token := back.expected (Option.some_ne_none token)
    refine ⟨front.expected, forall_mem_append.mpr ⟨front.origins, fun torrent member => .inl ?_⟩⟩
    exact ((back.origins torrent member).resolve_right nofun).trans same
  | none =>
    obtain rfl : snapshot = none := by_contra fun some => some (front.expected some).symm
    refine ⟨(absurd rfl ·), forall_mem_append.mpr ⟨fun torrent member => .inr ?_, back.origins⟩⟩
    exact (front.origins torrent member).elim (⟨·, rfl⟩) id

theorem fetch_traced [DecidableEq τ] {backend : Backend α τ} {origin : α → Option τ}
    (carried : ∀ offset limit snapshot torrents observed,
      backend offset limit snapshot = some (torrents, observed) →
        ∀ torrent ∈ torrents, origin torrent = observed) {offset limit : Nat}
    (clean : (fetchRangeResilient backend offset limit snapshot).hadErrors = false) :
    Traced origin snapshot (fetchRangeResilient backend offset limit snapshot) := by
  fun_induction fetchRangeResilient backend offset limit snapshot with
  | case1 offset limit snapshot torrents observed answered fresh =>
    refine ⟨fresh.resolve_left, fun torrent member => .inl ?_⟩
    exact carried _ _ _ _ _ answered torrent member
  | case3 offset limit snapshot failed more left fitting right ihLeft ihRight =>
    simp only [Bool.or_eq_false_iff] at clean
    exact (ihLeft clean.1.1).append (ihRight clean.1.2) _
  | case2 | case4 | case5 => cases clean

/-- The fetch is exact where the backend is steady, and what it returns without errors comes from
one token, whatever the backend does between the calls. -/
theorem resilient_fetch_exact [DecidableEq τ] {offset limit : Nat} {snapshot : Option τ}
    (positive : 0 < limit) (fits : offset + limit < 2 ^ 63) :
    (∀ (entries : List α) (token : Option τ) (faulty : Nat → Bool),
      snapshot = none ∨ snapshot = token →
      let fetched := fetchRangeResilient (steady entries token faulty) offset limit snapshot
      fetched.torrents =
        ((List.range' offset limit).filter (!faulty ·)).filterMap (entries[·]?) ∧
      (fetched.hadErrors = true ↔
        ∃ position, offset ≤ position ∧ position < offset + limit ∧ faulty position = true)) ∧
    ∀ (backend : Backend α τ) (origin : α → Option τ),
      (∀ offset limit snapshot torrents observed,
        backend offset limit snapshot = some (torrents, observed) →
          ∀ torrent ∈ torrents, origin torrent = observed) →
      let fetched := fetchRangeResilient backend offset limit snapshot
      fetched.hadErrors = false → ∀ first ∈ fetched.torrents, ∀ second ∈ fetched.torrents,
        origin first ≠ none → origin second ≠ none → origin first = origin second := by
  refine ⟨fun entries token faulty known => ?_, fun backend origin carried clean => ?_⟩
  · obtain ⟨torrents, errors, -⟩ := fetch_steady entries faulty positive fits known
    refine ⟨torrents, ?_⟩
    rw [errors, List.any_eq_true]
    simp only [List.mem_range'_1, and_assoc]
  · have origins := (fetch_traced carried clean).origins
    intro first inFirst second inSecond tokenFirst tokenSecond
    exact ((origins first inFirst).resolve_right fun none => tokenFirst none.1).trans
      ((origins second inSecond).resolve_right fun none => tokenSecond none.1).symm

theorem one_faulty_torrent_skipped :
    (fetchRangeResilient (steady [10, 11, 12] (some 7) (· == 1)) 0 3 none).torrents = [10, 12] :=
  ((resilient_fetch_exact (by decide) (by decide)).1 [10, 11, 12] (some 7) (· == 1) (.inl rfl)).1

end TorrentNG.Sidecar
