import Mathlib.Data.Nat.Digits.Lemmas
import TorrentNG.FixedWidth
import TorrentNG.Metainfo

/-!
# Info hashes of magnet links

A magnet link may write its 20-byte info hash in base 32. The decoder shifts five bits in for
each character and takes a byte out whenever eight are there. What it has taken out and what
is pending are together always the number its characters write.
-/

namespace TorrentNG.Magnet

open Bencode Fallible FixedWidth List Metainfo

/-- The error of the decoder, with its text. -/
inductive MagnetError where
  | unsupportedMagnetHash (text : String)
deriving DecidableEq

/-- The value of a character, in either case. -/
def base32Value (byte : UInt8) : Except MagnetError Nat :=
  if 65 ≤ byte ∧ byte ≤ 90 then .ok (byte - 65).toNat
  else if 97 ≤ byte ∧ byte ≤ 122 then .ok (byte - 97).toNat
  else if 50 ≤ byte ∧ byte ≤ 55 then .ok (byte - 50 + 26).toNat
  else .error (.unsupportedMagnetHash ("invalid base32 btih character: " ++ Decoder.hexByte byte))

/-- The bytes written so far, and the bits read and not yet written. -/
structure Decoding where
  out : List UInt8
  buffer : Nat
  bits : Nat

/-- The inner loop: write bytes while there are eight bits. -/
def Decoding.drain (state : Decoding) : Except MagnetError Decoding :=
  if 8 ≤ state.bits then
    let bits := state.bits - 8
    if 20 ≤ state.out.length then
      .error (.unsupportedMagnetHash "base32 btih decoded too many bytes")
    else
      Decoding.drain {
        out := state.out ++ [UInt8.ofNat (state.buffer >>> bits)]
        buffer := state.buffer &&& ((1 <<< bits) - 1)
        bits }
  else .ok state
termination_by state.bits

/-- One character. The buffer is a `u32`. -/
def Decoding.push (state : Decoding) (byte : UInt8) : Except MagnetError Decoding := do
  let value ← base32Value byte
  Decoding.drain {
    out := state.out
    buffer := (state.buffer <<< 5) % 2 ^ 32 ||| value
    bits := state.bits + 5 }

def decodeBase32Btih (hash : List UInt8) : Except MagnetError (Digest 20) := do
  let state ← hash.foldlM Decoding.push ⟨[], 0, 0⟩
  if whole : state.out.length = 20 ∧ state.bits = 0 then .ok ⟨state.out, whole.1⟩
  else .error (.unsupportedMagnetHash "base32 btih did not decode to 20 bytes")

/-! ## The encoding -/

/-- The letter of a digit: `A` to `Z`, then `2` to `7`. -/
def base32Letter (digit : Nat) : UInt8 :=
  UInt8.ofNat (if digit < 26 then 65 + digit else 24 + digit)

/-- An ASCII letter in upper case. -/
def upper (byte : UInt8) : UInt8 := if 97 ≤ byte ∧ byte ≤ 122 then byte - 32 else byte

/-- RFC 4648: the 160 bits in 32 groups of five, from the most significant one on. -/
def base32Text (hash : Digest 20) : List UInt8 :=
  (Nat.digitsAppend 32 32 (ofBigEndian hash.val)).reverse.map base32Letter

/-- The characters with a value are the letters, in either case. -/
theorem base32Value_eq_ok {byte : UInt8} {digit : Nat} :
    base32Value byte = .ok digit ↔ digit < 32 ∧ base32Letter digit = upper byte := by
  have bounded : ∀ code < 256, (base32Value (UInt8.ofNat code)).toOption.getD 0 < 32 := by
    decide +kernel
  have table : ∀ code < 256, ∀ digit < 32, base32Value (UInt8.ofNat code) = .ok digit ↔
      base32Letter digit = upper (UInt8.ofNat code) := by
    decide +kernel
  have this := bounded byte.toNat byte.toNat_lt
  have entry := table byte.toNat byte.toNat_lt digit
  rw [UInt8.ofNat_toNat] at this entry
  constructor
  · intro valued
    rw [valued] at this
    exact ⟨this, (entry this).mp valued⟩
  · rintro ⟨small, letter⟩
    exact (entry small).mpr letter

/-! ## The loop -/

/-- Written and pending bits are together the number that the digits write. -/
structure Reads (digits : List Nat) (state : Decoding) : Prop where
  value : Nat.ofDigits 32 digits.reverse = ofBigEndian state.out * 2 ^ state.bits + state.buffer
  pending : state.buffer < 2 ^ state.bits
  count : 5 * digits.length = 8 * state.out.length + state.bits

theorem reads_start : Reads [] ⟨[], 0, 0⟩ := ⟨rfl, by decide, rfl⟩

variable {digits : List Nat} {state after : Decoding} (reads : Reads digits state)

include reads

/-- Writing a byte moves eight of the pending bits. -/
theorem Reads.write (eight : 8 ≤ state.bits) :
    Reads digits ⟨state.out ++ [UInt8.ofNat (state.buffer >>> (state.bits - 8))],
      state.buffer &&& (1 <<< (state.bits - 8)) - 1, state.bits - 8⟩ := by
  obtain ⟨value, pending, count⟩ := reads
  obtain ⟨bits, same⟩ := Nat.exists_eq_add_of_le eight
  rw [same, Nat.pow_add] at value pending
  have byte : state.buffer >>> bits < 256 := by
    rw [Nat.shiftRight_eq_div_pow]
    exact Nat.div_lt_of_lt_mul (by rwa [Nat.mul_comm] at pending)
  have written : ofBigEndian (state.out ++ [UInt8.ofNat (state.buffer >>> bits)]) =
      256 * ofBigEndian state.out + state.buffer >>> bits := by
    rw [ofBigEndian, reverse_concat]
    simp [ofLittleEndian, ofBigEndian, Nat.mod_eq_of_lt byte, Nat.add_comm]
  rw [same, Nat.add_sub_cancel_left]
  refine ⟨?_, ?_, ?_⟩
  · dsimp only
    rw [value, written, Nat.one_shiftLeft, Nat.and_two_pow_sub_one_eq_mod,
      Nat.shiftRight_eq_div_pow]
    have split := Nat.div_add_mod' state.buffer (2 ^ bits)
    rw [Nat.add_mul, Nat.add_assoc, split]
    ring
  · dsimp only
    rw [Nat.one_shiftLeft, Nat.and_two_pow_sub_one_eq_mod]
    exact Nat.mod_lt _ (Nat.two_pow_pos bits)
  · rw [count, length_append]
    dsimp only [length_singleton]
    omega

/-- The inner loop ends with less than eight bits pending, unless there are more than 20 bytes. -/
theorem drain_spec : (∀ after, state.drain = .ok after → Reads digits after ∧ after.bits < 8) ∧
      (digits.length ≤ 32 → ∃ after, state.drain = .ok after) := by
  fun_induction Decoding.drain state with
  | case1 state eight full =>
    have count := reads.count
    exact ⟨nofun, fun short => by omega⟩
  | case2 state eight bits room ih => exact ih (reads.write eight)
  | case3 state few =>
    refine ⟨?_, fun _ => ⟨state, rfl⟩⟩
    rintro _ ⟨⟩
    exact ⟨reads, by omega⟩

theorem push_spec (few : state.bits < 8) {byte : UInt8} {digit : Nat}
    (valued : base32Value byte = .ok digit) :
    (∀ after, state.push byte = .ok after → Reads (digits ++ [digit]) after ∧ after.bits < 8) ∧
      (digits.length < 32 → ∃ after, state.push byte = .ok after) := by
  obtain ⟨value, pending, count⟩ := reads
  have small := (base32Value_eq_ok.mp valued).1
  have below : state.buffer < 2 ^ 7 :=
    pending.trans_le (Nat.pow_le_pow_right (by decide) (by omega))
  have shifted : (state.buffer <<< 5) % 2 ^ 32 ||| digit = 32 * state.buffer + digit := by
    rw [Nat.mod_eq_of_lt (by rw [Nat.shiftLeft_eq]; omega), ← Nat.shiftLeft_add_eq_or_of_lt small,
      Nat.shiftLeft_eq, Nat.mul_comm]
  have next : Reads (digits ++ [digit])
      ⟨state.out, (state.buffer <<< 5) % 2 ^ 32 ||| digit, state.bits + 5⟩ := by
    rw [shifted]
    refine ⟨?_, ?_, ?_⟩
    · rw [reverse_concat, Nat.ofDigits_cons, value, Nat.pow_add]
      ring
    · dsimp only
      rw [Nat.pow_add]
      omega
    · rw [length_append]
      dsimp only [length_singleton]
      omega
  have pushed : state.push byte =
      Decoding.drain ⟨state.out, (state.buffer <<< 5) % 2 ^ 32 ||| digit, state.bits + 5⟩ := by
    rw [Decoding.push, valued]
    rfl
  rw [pushed]
  obtain ⟨kept, total⟩ := drain_spec next
  exact ⟨kept, fun short => total (by rw [length_append]; exact short)⟩

/-- The text is that of the digits, in either case. -/
def Writes (digits : List Nat) (text : List UInt8) : Prop :=
  (∀ digit ∈ digits, digit < 32) ∧ digits.map base32Letter = text.map upper

/-- What the loop accepts is a text of digits, and it has read them. -/
theorem foldlM_push_reads {text : List UInt8} (few : state.bits < 8)
    (accepted : text.foldlM Decoding.push state = .ok after) :
    ∃ read, Writes read text ∧ Reads (digits ++ read) after ∧ after.bits < 8 := by
  induction text generalizing digits state with
  | nil =>
    cases accepted
    exact ⟨[], ⟨nofun, rfl⟩, by rwa [append_nil], few⟩
  | cons byte rest ih =>
    rw [foldlM_cons, bind_eq_ok] at accepted
    obtain ⟨next, pushed, accepted⟩ := accepted
    obtain ⟨digit, valued, _⟩ := bind_eq_ok.mp pushed
    obtain ⟨small, letter⟩ := base32Value_eq_ok.mp valued
    obtain ⟨nextReads, nextFew⟩ := (push_spec reads few valued).1 next pushed
    obtain ⟨read, ⟨others, letters⟩, finished⟩ := ih nextReads nextFew accepted
    refine ⟨digit :: read, ⟨forall_mem_cons.mpr ⟨small, others⟩, ?_⟩, ?_⟩
    · rw [map_cons, map_cons, letter, letters]
    · rwa [append_cons]

/-- The loop accepts the texts of up to 32 digits. -/
theorem foldlM_push_total {text : List UInt8} {read : List Nat} (writes : Writes read text)
    (short : (digits ++ read).length ≤ 32) (few : state.bits < 8) :
    ∃ after, text.foldlM Decoding.push state = .ok after ∧ Reads (digits ++ read) after ∧
      after.bits < 8 := by
  induction text generalizing digits state read with
  | nil =>
    obtain rfl := map_eq_nil_iff.mp writes.2
    exact ⟨state, rfl, by rwa [append_nil], few⟩
  | cons byte rest ih =>
    obtain ⟨digit, others, rfl, letter, letters⟩ := map_eq_cons_iff.mp writes.2
    obtain ⟨small, smaller⟩ := forall_mem_cons.mp writes.1
    have valued := base32Value_eq_ok.mpr ⟨small, letter⟩
    obtain ⟨kept, total⟩ := push_spec reads few valued
    rw [append_cons] at short ⊢
    obtain ⟨next, pushed⟩ := total (by simp at short; omega)
    obtain ⟨nextReads, nextFew⟩ := kept next pushed
    obtain ⟨after, finished⟩ := ih nextReads ⟨smaller, letters⟩ short nextFew
    exact ⟨after, by rwa [foldlM_cons, pushed, ok_bind]⟩

/-- With no bit pending the bytes written are the number of the digits. -/
theorem Reads.value_eq (none : state.bits = 0) :
    Nat.ofDigits 32 digits.reverse = ofBigEndian state.out := by
  obtain ⟨value, pending, _⟩ := reads
  rw [none] at value pending
  omega

omit reads

/-- The decoder accepts the base 32 text of a hash, in either case of each letter, and nothing
else. -/
theorem decodeBase32Btih_eq_ok_iff (text : List UInt8) (hash : Digest 20) :
    decodeBase32Btih text = .ok hash ↔ text.map upper = base32Text hash := by
  rw [decodeBase32Btih, bind_eq_ok, base32Text]
  constructor
  · rintro ⟨state, accepted, checked⟩
    obtain ⟨digits, ⟨small, letters⟩, reads, _⟩ :=
      foldlM_push_reads reads_start (by decide) accepted
    rw [List.nil_append] at reads
    split at checked
    next whole =>
      cases checked
      have count := reads.count
      have inverse := (Nat.setInvOn_digitsAppend_ofDigits (by decide) 32).1
        (show digits.reverse ∈ {L : List Nat | L.length = 32 ∧ ∀ x ∈ L, x < 32} from
          ⟨by rw [List.length_reverse]; omega, fun digit inside =>
            small digit (List.mem_reverse.mp inside)⟩)
      rw [← reads.value_eq whole.2, inverse, List.reverse_reverse, letters]
    next => cases checked
  · intro written
    have bound : ofBigEndian hash.val < 32 ^ 32 := by
      have below := ofBigEndian_lt hash.val
      rw [hash.property] at below
      exact below
    have length := Nat.length_digitsAppend (by decide) 32 bound
    obtain ⟨state, accepted, reads, few⟩ := foldlM_push_total
      reads_start ⟨fun digit inside =>
        Nat.lt_of_mem_digitsAppend (by decide) 32 digit (List.mem_reverse.mp inside),
        written.symm⟩ (by rw [List.nil_append, List.length_reverse, length]) (by decide)
    rw [List.nil_append] at reads
    have count := reads.count
    rw [List.length_reverse, length] at count
    have whole : state.out.length = 20 ∧ state.bits = 0 := by omega
    have value := reads.value_eq whole.2
    rw [List.reverse_reverse, Nat.digitsAppend, Nat.ofDigits_append_replicate_zero,
      Nat.ofDigits_digits] at value
    have same : state.out = hash.val := by
      rw [← bigEndian_ofBigEndian state.out, ← bigEndian_ofBigEndian hash.val, value, whole.1,
        hash.property]
    refine ⟨state, accepted, ?_⟩
    rw [dif_pos whole]
    exact congrArg Except.ok (Subtype.ext same)

end TorrentNG.Magnet
