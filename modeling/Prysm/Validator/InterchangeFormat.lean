import Prysm.Validator.ProposalHistory

/-!
# Hex strings of the slashing-protection interchange format

`pubKeyFromHex`, `rootFromHex`, `rootToHexString` and `pubKeyToHexString` of
the EIP-3076 import and export (`standard-protection-format/helpers.go`). A
key or root is written as `0x` and two lowercase hex digits a byte; it is read
back by dropping an optional `0x`, decoding the digits of either case, and
checking the width. Written values read back as themselves, and strings of
the written form are written back as they were.

Go's strings are bytes and Lean's are characters; the two agree on the ASCII
text these functions write and accept, and differ only in which byte of a
non-ASCII character an `InvalidByteError` names.
-/

namespace Prysm.Validator.InterchangeFormat

open Prysm.Validator.ProposalHistory (Bytes)

/-- A Go byte array `[n]byte`. -/
structure FixedBytes (n : ℕ) where
  /-- Its bytes. -/
  bytes : Bytes
  /-- It has exactly `n` of them. -/
  length_eq : bytes.length = n
  deriving DecidableEq

/-- The errors of the helpers. -/
inductive HexError
  /-- `hex.InvalidByteError`: a character that is not a hex digit. -/
  | invalidByte (c : Char)
  /-- `hex.ErrLength`, "encoding/hex: odd length hex string". -/
  | oddLength
  /-- An error made by `fmt.Errorf`, with its text. -/
  | errorf (text : String)
  deriving DecidableEq, Repr

/-- Modelled from the spec: `strings.TrimPrefix` is not in the sources; it
drops `pre` from the front of `s` when `s` starts with it. -/
def trimPrefix (s pre : String) : String :=
  if pre.toList.isPrefixOf s.toList then ⟨s.toList.drop pre.length⟩ else s

/-- Modelled from the spec: `fromHexChar` of `encoding/hex` is not in the
sources; the value of a hex digit of either case. -/
def fromHexChar (c : Char) : Option ℕ :=
  if '0' ≤ c ∧ c ≤ '9' then some (c.toNat - '0'.toNat)
  else if 'a' ≤ c ∧ c ≤ 'f' then some (c.toNat - 'a'.toNat + 10)
  else if 'A' ≤ c ∧ c ≤ 'F' then some (c.toNat - 'A'.toNat + 10)
  else none

/-- Modelled from the spec: `hex.DecodeString` is not in the sources. Digits
are read in pairs, the high one first; a bad digit of a pair is reported
before its partner, and a last digit without a partner is checked before the
odd length is. -/
def decodeHex : List Char → Except HexError Bytes
  | [] => .ok []
  | [c] =>
    match fromHexChar c with
    | none => .error (.invalidByte c)
    | some _ => .error .oddLength
  | a :: b :: rest =>
    match fromHexChar a, fromHexChar b with
    | none, _ => .error (.invalidByte a)
    | some _, none => .error (.invalidByte b)
    | some hi, some lo => (decodeHex rest).map (BitVec.ofNat 8 (16 * hi + lo) :: ·)

/-- The lowercase digits of `fmt`, `ldigits`. -/
def lowerHexDigits : List Char := "0123456789abcdef".toList

/-- The lowercase digit of a value below 16. -/
def hexDigit (n : ℕ) : Char := lowerHexDigits.getD n '0'

/-- The two lowercase digits of each byte, the high one first. -/
def encodeHex (bs : Bytes) : List Char :=
  bs.flatMap fun b => [hexDigit (b.toNat / 16), hexDigit (b.toNat % 16)]

/-- Modelled from the spec: `fmt.Sprintf("%#x", b)` of a byte slice, `0x` and
its digits, or nothing for an empty slice. -/
def sprintfHex (bs : Bytes) : String :=
  if bs = [] then "" else ⟨'0' :: 'x' :: encodeHex bs⟩

/-- The shared body of `pubKeyFromHex` and `rootFromHex`: decode what follows
an optional `0x`, and accept exactly `n` bytes, which `copy` then moves into
the array whole. -/
def fixedFromHex (n : ℕ) (lengthText : String) (str : String) : Except HexError (FixedBytes n) :=
  match decodeHex (trimPrefix str "0x").toList with
  | .error e => .error e
  | .ok bs => if h : bs.length = n then .ok ⟨bs, h⟩ else .error (.errorf (lengthText ++ str))

/-- `pubKeyFromHex`. -/
def pubKeyFromHex (str : String) : Except HexError (FixedBytes 48) :=
  fixedFromHex 48 "public key is not correct, 48-byte length: " str

/-- `rootFromHex`. -/
def rootFromHex (str : String) : Except HexError (FixedBytes 32) :=
  fixedFromHex 32 "wrong root length, 32-byte length: " str

/-- `rootToHexString`: the empty root, which EIP-3076 allows, is the empty
string; any other root must have 32 bytes. -/
def rootToHexString (root : Bytes) : Except HexError String :=
  if root.length = 0 then .ok ""
  else if root.length ≠ 32 then .error (.errorf ("wanted length 32, received " ++ toString root.length))
  else .ok (sprintfHex root)

/-- `pubKeyToHexString`: a key must have 48 bytes. -/
def pubKeyToHexString (pubKey : Bytes) : Except HexError String :=
  if pubKey.length ≠ 48 then .error (.errorf ("wanted length 48, received " ++ toString pubKey.length))
  else .ok (sprintfHex pubKey)

section Digits

/-- Each of the sixteen digits reads back as its own value. -/
theorem fromHexChar_hexDigit {n : ℕ} (hn : n < 16) : fromHexChar (hexDigit n) = some n := by
  have h : ∀ k : Fin 16, fromHexChar (hexDigit k) = some k := by decide
  exact h ⟨n, hn⟩

/-- A lowercase digit has a value below 16 that is written as the digit itself. -/
theorem exists_fromHexChar {c : Char} (hc : c ∈ lowerHexDigits) :
    ∃ n, fromHexChar c = some n ∧ n < 16 ∧ hexDigit n = c := by
  simp only [lowerHexDigits, String.toList, List.mem_cons, List.mem_nil_iff, or_false] at hc
  rcases hc with rfl | rfl | rfl | rfl | rfl | rfl | rfl | rfl | rfl | rfl | rfl | rfl | rfl | rfl |
    rfl | rfl <;>
    exact ⟨_, rfl, by decide, rfl⟩

@[simp] theorem length_encodeHex (bs : Bytes) : (encodeHex bs).length = 2 * bs.length := by
  induction bs with
  | nil => rfl
  | cons b bs ih =>
    simp only [encodeHex, List.flatMap_cons, List.length_append, List.length_cons,
      List.length_nil] at ih ⊢
    omega

/-- Reading the digits of a byte string gives that byte string back. -/
theorem decodeHex_encodeHex (bs : Bytes) : decodeHex (encodeHex bs) = .ok bs := by
  induction bs with
  | nil => rfl
  | cons b bs ih =>
    have hb : b.toNat < 256 := b.isLt
    have hhi := fromHexChar_hexDigit (show b.toNat / 16 < 16 by omega)
    have hlo := fromHexChar_hexDigit (show b.toNat % 16 < 16 by omega)
    have hbyte : BitVec.ofNat 8 (16 * (b.toNat / 16) + b.toNat % 16) = b := by
      rw [Nat.div_add_mod, BitVec.ofNat_toNat, BitVec.setWidth_eq]
    simp only [encodeHex, List.flatMap_cons, List.cons_append, List.nil_append] at ih ⊢
    rw [decodeHex, hhi, hlo]
    simp only [ih, hbyte, Except.map]

/-- Writing the bytes of lowercase digits in pairs gives the digits back. -/
theorem encodeHex_decodeHex (n : ℕ) :
    ∀ ds : List Char, ds.length = 2 * n → (∀ c ∈ ds, c ∈ lowerHexDigits) →
      ∃ bs, decodeHex ds = .ok bs ∧ encodeHex bs = ds ∧ bs.length = n := by
  induction n with
  | zero =>
    intro ds hlen _
    obtain rfl : ds = [] := List.length_eq_zero.mp (by simpa using hlen)
    exact ⟨[], rfl, rfl, rfl⟩
  | succ n ih =>
    intro ds hlen hd
    match ds, hlen with
    | a :: b :: rest, hlen =>
      obtain ⟨hi, ha, hhi, rfl⟩ := exists_fromHexChar (hd a (by simp))
      obtain ⟨lo, hb, hlo, rfl⟩ := exists_fromHexChar (hd b (by simp))
      obtain ⟨bs, hbs, henc, hn⟩ :=
        ih rest (by simp at hlen; omega) fun c hc => hd c (by simp [hc])
      have hv : (BitVec.ofNat 8 (16 * hi + lo)).toNat = 16 * hi + lo := by
        rw [BitVec.toNat_ofNat]; exact Nat.mod_eq_of_lt (by omega)
      refine ⟨BitVec.ofNat 8 (16 * hi + lo) :: bs, ?_, ?_, by simp [hn]⟩
      · rw [decodeHex, ha, hb]
        simp only [hbs, Except.map]
      · simp only [encodeHex, List.flatMap_cons, List.cons_append, List.nil_append] at henc ⊢
        rw [henc, hv, Nat.mul_add_div (by norm_num), Nat.div_eq_of_lt hlo, Nat.add_zero,
          Nat.mul_add_mod, Nat.mod_eq_of_lt hlo]

theorem trimPrefix_hex (ds : List Char) : trimPrefix ⟨'0' :: 'x' :: ds⟩ "0x" = ⟨ds⟩ := by
  have h : "0x".length = 2 := rfl
  simp [trimPrefix, List.isPrefixOf, h]

end Digits

section Fixed

variable {n : ℕ} {lengthText : String}

theorem sprintfHex_of_ne_nil {bs : Bytes} (h : bs ≠ []) : sprintfHex bs = ⟨'0' :: 'x' :: encodeHex bs⟩ :=
  if_neg h

/-- A value written by `%#x` reads back as itself. -/
theorem fixedFromHex_sprintfHex (hn : 0 < n) (b : FixedBytes n) :
    fixedFromHex n lengthText (sprintfHex b.bytes) = .ok b := by
  have hne : b.bytes ≠ [] := List.ne_nil_of_length_pos (by rw [b.length_eq]; exact hn)
  rw [fixedFromHex, sprintfHex_of_ne_nil hne, trimPrefix_hex]
  simp only [String.toList, decodeHex_encodeHex, b.length_eq, dite_true]

/-- A string `0x` and `2n` lowercase digits is read, and written back as it was. -/
theorem sprintfHex_fixedFromHex (hn : 0 < n) (ds : List Char) (hlen : ds.length = 2 * n)
    (hd : ∀ c ∈ ds, c ∈ lowerHexDigits) :
    ∃ b, fixedFromHex n lengthText ⟨'0' :: 'x' :: ds⟩ = .ok b ∧
      sprintfHex b.bytes = ⟨'0' :: 'x' :: ds⟩ := by
  obtain ⟨bs, hbs, henc, hlen'⟩ := encodeHex_decodeHex n ds hlen hd
  have hne : bs ≠ [] := List.ne_nil_of_length_pos (by rw [hlen']; exact hn)
  refine ⟨⟨bs, hlen'⟩, ?_, by rw [sprintfHex_of_ne_nil hne, henc]⟩
  rw [fixedFromHex, trimPrefix_hex]
  simp only [String.toList, hbs, hlen', dite_true]

end Fixed

/-- Every root and every key written by the export reads back as itself, and
every string `0x` followed by 64 (for a root) or 96 (for a key) lowercase hex
digits is read by the import and written back as it was. -/
theorem hexString_round_trips :
    (∀ r : FixedBytes 32, ∃ s, rootToHexString r.bytes = .ok s ∧ rootFromHex s = .ok r) ∧
    (∀ pk : FixedBytes 48, ∃ s, pubKeyToHexString pk.bytes = .ok s ∧ pubKeyFromHex s = .ok pk) ∧
    (∀ ds : List Char, ds.length = 64 → (∀ c ∈ ds, c ∈ lowerHexDigits) →
      ∃ r, rootFromHex ⟨'0' :: 'x' :: ds⟩ = .ok r ∧
        rootToHexString r.bytes = .ok ⟨'0' :: 'x' :: ds⟩) ∧
    (∀ ds : List Char, ds.length = 96 → (∀ c ∈ ds, c ∈ lowerHexDigits) →
      ∃ pk, pubKeyFromHex ⟨'0' :: 'x' :: ds⟩ = .ok pk ∧
        pubKeyToHexString pk.bytes = .ok ⟨'0' :: 'x' :: ds⟩) := by
  refine ⟨fun r => ⟨_, ?_, fixedFromHex_sprintfHex (show 0 < 32 by norm_num) r⟩,
    fun pk => ⟨_, ?_, fixedFromHex_sprintfHex (show 0 < 48 by norm_num) pk⟩, fun ds hlen hd => ?_,
    fun ds hlen hd => ?_⟩
  · simp [rootToHexString, r.length_eq]
  · simp [pubKeyToHexString, pk.length_eq]
  · obtain ⟨r, hr, hs⟩ := sprintfHex_fixedFromHex (show 0 < 32 by norm_num) ds hlen hd
    exact ⟨r, hr, by simp [rootToHexString, r.length_eq, hs]⟩
  · obtain ⟨pk, hpk, hs⟩ := sprintfHex_fixedFromHex (show 0 < 48 by norm_num) ds hlen hd
    exact ⟨pk, hpk, by simp [pubKeyToHexString, pk.length_eq, hs]⟩

/-- The branch only `rootToHexString` has: the empty root is written as the
empty string, which `rootFromHex` does not read back. -/
theorem rootToHexString_nil_not_read_back :
    rootToHexString [] = .ok "" ∧ rootFromHex "" = .error (.errorf "wrong root length, 32-byte length: ") :=
  ⟨rfl, rfl⟩

end Prysm.Validator.InterchangeFormat
