-- `unprotectTmpData` of wiredtiger_encryption_hooks.cpp for the CBC and the GCM hook, as the
-- memory it touches and the status it returns. The hook's own code is translated step by step:
-- its reads of the input, its `size_t` subtractions, and the `int` its length becomes when it
-- is handed to OpenSSL. What the EVP calls return depends on the key and the data, so it is a
-- parameter; what they touch is what OpenSSL's interface gives them: the IV that
-- `EVP_DecryptInit_ex` is pointed at, the `inl` bytes `EVP_DecryptUpdate` reads and the bytes it
-- and `EVP_DecryptFinal_ex` write, and the tag `EVP_CTRL_GCM_SET_TAG` reads. Neither hook looks
-- at `inLen` before it reads the header, nor at `outLen` at all.
import Mathlib

namespace mongo

namespace WiredTigerEncryptionHooks

/-- The two hooks. -/
inductive Mode
  | cbc
  | gcm
  deriving DecidableEq, Repr

/-- `EVP_CIPHER_iv_length` of `EVP_aes_256_cbc()` and of `EVP_aes_256_gcm()`. -/
def ivLen : Mode → Nat
  | .cbc => 16
  | .gcm => 12

/-- `_chksum_len`: the CRC32C that the CBC hook stores before the IV. -/
def _chksum_len : Nat := 4

/-- `_gcm_tag_len`: the tag that the GCM hook stores before the IV. -/
def _gcm_tag_len : Nat := 16

/-- The bytes before the IV: the checksum, or the tag. -/
def prefixLen : Mode → Nat
  | .cbc => _chksum_len
  | .gcm => _gcm_tag_len

/-- The two buffers of a call. -/
inductive Buffer
  | input
  | output
  deriving DecidableEq, Repr

/-- A read or a write of `length` bytes from `offset` of a buffer. -/
structure Access where
  write : Bool
  buffer : Buffer
  offset : Nat
  length : Nat
  deriving DecidableEq, Repr

/-- `Status`: OK, the error of `handleCryptoErrors`, or the failed integrity check. -/
inductive Status
  | ok
  | cryptoError
  | integrityError
  deriving DecidableEq, Repr

/-- What the EVP calls return for the key and the data at hand: whether each succeeds, the bytes
`EVP_DecryptUpdate` writes for `inl` bytes, the bytes `EVP_DecryptFinal_ex` writes, and whether
the CRC32C of the plaintext matches the stored one. -/
structure Evp where
  initOk : Bool
  updateOk : Bool
  updateLen : Nat → Nat
  setTagOk : Bool
  finalOk : Bool
  finalLen : Nat
  crcMatches : Bool

/-- `size_t` arithmetic: the result modulo `2 ^ 64`. -/
def sizeT (x : Int) : Nat := (x % 2 ^ 64).toNat

/-- A `size_t` passed as the `int inl` of `EVP_DecryptUpdate`: its low 32 bits, signed. -/
def toInt (x : Nat) : Int :=
  if x % 2 ^ 32 < 2 ^ 31 then (x % 2 ^ 32 : Nat) else (x % 2 ^ 32 : Nat) - 2 ^ 32

/-- A call of the hook: the accesses it made, in order, `*resultLen`, and its status. -/
structure Run where
  accesses : List Access
  resultLen : Nat
  status : Status
  deriving Repr

/-- `EVP_DecryptUpdate(ctx, out, &len, in + offset, inl)` after the accesses `acc`: a negative
`inl` fails at once, touching nothing; otherwise it reads the `inl` bytes and writes its output
from the start of `out`. -/
def decryptUpdate (evp : Evp) (acc : List Access) (offset : Nat) (inl : Int) :
    Option (List Access × Nat) :=
  if inl < 0 ∨ evp.updateOk = false then none
  else
    let n := evp.updateLen inl.toNat
    some (acc ++ [⟨false, .input, offset, inl.toNat⟩, ⟨true, .output, 0, n⟩], n)

/-- The rest of the call after `EVP_DecryptUpdate` wrote `resultLen` bytes: the GCM hook sets
the expected tag, read from the start of `in`; both run `EVP_DecryptFinal_ex`, which writes after
those bytes; the CBC hook then checks the CRC32C of the plaintext. -/
def finishDecrypt (mode : Mode) (evp : Evp) (acc : List Access) (resultLen : Nat) : Run :=
  let tagged : Option (List Access) := match mode with
    | .cbc => some acc
    | .gcm => if evp.setTagOk then some (acc ++ [⟨false, .input, 0, _gcm_tag_len⟩]) else none
  match tagged with
  | none => ⟨acc, resultLen, .cryptoError⟩
  | some acc =>
    if evp.finalOk = false then ⟨acc, resultLen, .cryptoError⟩
    else
      let acc := acc ++ [⟨true, .output, resultLen, evp.finalLen⟩]
      let resultLen := resultLen + evp.finalLen
      match mode with
      | .gcm => ⟨acc, resultLen, .ok⟩
      | .cbc =>
        -- the checksum is computed over the plaintext written
        let acc := acc ++ [⟨false, .output, 0, resultLen⟩]
        if evp.crcMatches then ⟨acc, resultLen, .ok⟩ else ⟨acc, resultLen, .integrityError⟩

/-- `WiredTigerEncryptionHooksCBC::unprotectTmpData` and the GCM one: the header, then
`EVP_DecryptUpdate`, then `finishDecrypt`. `outLen` is a parameter of both and read by neither. -/
def unprotectTmpData (mode : Mode) (evp : Evp) (inLen _outLen : Nat) : Run :=
  -- the CBC hook reads the checksum; the GCM hook only keeps a pointer to the tag
  let acc : List Access := match mode with
    | .cbc => [⟨false, .input, 0, _chksum_len⟩]
    | .gcm => []
  let inLen := sizeT (inLen - prefixLen mode)
  if evp.initOk = false then ⟨acc, 0, .cryptoError⟩
  else
    -- `EVP_DecryptInit_ex` takes the IV from `in`, after the prefix
    let acc := acc ++ [⟨false, .input, prefixLen mode, ivLen mode⟩]
    let inLen := sizeT (inLen - ivLen mode)
    match decryptUpdate evp acc (prefixLen mode + ivLen mode) (toInt inLen) with
    | none => ⟨acc, 0, .cryptoError⟩
    | some (acc, resultLen) => finishDecrypt mode evp acc resultLen

/-- An access lies inside its buffer, of `inLen` or `outLen` bytes. -/
def Access.Within (inLen outLen : Nat) (a : Access) : Prop :=
  a.offset + a.length ≤ match a.buffer with
    | .input => inLen
    | .output => outLen

instance (inLen outLen : Nat) (a : Access) : Decidable (a.Within inLen outLen) :=
  inferInstanceAs (Decidable (_ ≤ _))

/-! ## The accesses only grow -/

theorem decryptUpdate_extends {evp : Evp} {acc acc' : List Access} {offset n : Nat} {inl : Int}
    (h : decryptUpdate evp acc offset inl = some (acc', n)) : acc <+: acc' := by
  unfold decryptUpdate at h
  split at h
  · cases h
  · cases h
    exact List.prefix_append _ _

theorem finishDecrypt_extends (mode : Mode) (evp : Evp) (acc : List Access) (resultLen : Nat) :
    acc <+: (finishDecrypt mode evp acc resultLen).accesses := by
  -- each outcome of the three calls after the update appends to the accesses
  cases mode <;> cases hs : evp.setTagOk <;> cases hf : evp.finalOk <;>
    cases hc : evp.crcMatches <;> simp [finishDecrypt, hs, hf, hc]

/-- Whenever the cipher takes the key, the hook reads the IV, the bytes from `prefixLen` to
`prefixLen + ivLen`, whatever `inLen` is. -/
theorem iv_read_mem (mode : Mode) (evp : Evp) (inLen outLen : Nat) (hinit : evp.initOk = true) :
    ⟨false, .input, prefixLen mode, ivLen mode⟩ ∈
      (unprotectTmpData mode evp inLen outLen).accesses := by
  unfold unprotectTmpData
  simp only [hinit, Bool.true_eq_false, if_false]
  split
  · simp
  · rename_i acc resultLen hupdate
    exact (decryptUpdate_extends hupdate).trans (finishDecrypt_extends mode evp acc resultLen)
      |>.subset (by simp)

/-! ## The lengths -/

/-- Two `size_t` subtractions in a row are one. -/
theorem sizeT_sub_sizeT (a : Int) (c : Nat) : sizeT ((sizeT a : Int) - c) = sizeT (a - c) := by
  unfold sizeT
  omega

/-- A small negative length wraps to a huge `size_t`, whose low 32 bits are negative again as an
`int`. -/
theorem toInt_sizeT_neg {k : Nat} (hk : 1 ≤ k) (hk' : k ≤ 2 ^ 31) :
    toInt (sizeT (-(k : Int))) = -(k : Int) := by
  unfold toInt sizeT
  omega

theorem decryptUpdate_of_neg {evp : Evp} {acc : List Access} {offset : Nat} {inl : Int}
    (h : inl < 0) : decryptUpdate evp acc offset inl = none := by
  rw [decryptUpdate, if_pos (.inl h)]

/-- The length handed to `EVP_DecryptUpdate`: `inLen` less the prefix and the IV, in `size_t`,
then as an `int`. -/
theorem toInt_updateLength (mode : Mode) (inLen : Nat) :
    toInt (sizeT ((sizeT ((inLen : Int) - prefixLen mode) : Int) - ivLen mode)) =
      if prefixLen mode + ivLen mode ≤ inLen then
        toInt (inLen - (prefixLen mode + ivLen mode))
      else -((prefixLen mode + ivLen mode - inLen : Nat) : Int) := by
  have hhead : prefixLen mode + ivLen mode ≤ 28 := by cases mode <;> decide
  rw [sizeT_sub_sizeT]
  split
  · rw [show (inLen : Int) - prefixLen mode - ivLen mode =
      ((inLen - (prefixLen mode + ivLen mode) : Nat) : Int) by omega]
    -- `int` keeps only the low 32 bits, which the `size_t` wrap-around leaves alone
    unfold toInt sizeT
    omega
  · rw [show (inLen : Int) - prefixLen mode - ivLen mode =
      -((prefixLen mode + ivLen mode - inLen : Nat) : Int) by omega]
    apply toInt_sizeT_neg <;> omega

/-- An input shorter than the prefix and the IV leaves `EVP_DecryptUpdate` a negative length,
so the call fails after the header was read. -/
theorem unprotectTmpData_status_of_short (mode : Mode) (evp : Evp) (inLen outLen : Nat)
    (hshort : inLen < prefixLen mode + ivLen mode) :
    (unprotectTmpData mode evp inLen outLen).status = .cryptoError := by
  have hneg : toInt (sizeT ((sizeT ((inLen : Int) - prefixLen mode) : Int) - ivLen mode)) < 0 := by
    rw [toInt_updateLength, if_neg (by omega)]
    omega
  unfold unprotectTmpData
  dsimp only
  split
  · rfl
  · rw [decryptUpdate_of_neg hneg]

theorem toInt_of_lt {n : Nat} (h : n < 2 ^ 31) : toInt n = n := by
  unfold toInt
  omega

theorem decryptUpdate_of_nonneg {evp : Evp} {acc : List Access} {offset : Nat} {inl : Int}
    (h : 0 ≤ inl) (hok : evp.updateOk = true) :
    decryptUpdate evp acc offset inl =
      some (acc ++ [⟨false, .input, offset, inl.toNat⟩, ⟨true, .output, 0, evp.updateLen inl.toNat⟩],
        evp.updateLen inl.toNat) := by
  rw [decryptUpdate, if_neg (by simp [hok]; omega)]

/-- A decrypted length above `outLen` is written all the same: nothing compares the two. -/
theorem unprotectTmpData_writes_past_output (mode : Mode) (evp : Evp) (inLen outLen : Nat)
    (hinit : evp.initOk = true) (hupdate : evp.updateOk = true)
    (hlong : prefixLen mode + ivLen mode ≤ inLen)
    (hint : inLen - (prefixLen mode + ivLen mode) < 2 ^ 31)
    (hbig : outLen < evp.updateLen (inLen - (prefixLen mode + ivLen mode))) :
    ∃ a ∈ (unprotectTmpData mode evp inLen outLen).accesses, a.write = true ∧
      ¬ a.Within inLen outLen := by
  have hlen : toInt (sizeT ((sizeT ((inLen : Int) - prefixLen mode) : Int) - ivLen mode)) =
      ((inLen - (prefixLen mode + ivLen mode) : Nat) : Int) := by
    rw [toInt_updateLength, if_pos hlong, toInt_of_lt hint]
  unfold unprotectTmpData
  dsimp only
  rw [if_neg (by simp [hinit]), hlen, decryptUpdate_of_nonneg (by omega) hupdate]
  dsimp only
  -- the update's write of the whole plaintext, from the start of `out`
  refine ⟨⟨true, .output, 0, evp.updateLen (inLen - (prefixLen mode + ivLen mode))⟩,
    (finishDecrypt_extends mode evp _ _).subset (by simp), rfl, ?_⟩
  simp only [Access.Within]
  omega

/-- Every input shorter than its header makes the hook fail, but only after reading past the
input: the CBC hook reads the checksum and both hooks hand OpenSSL the IV, at offsets that
`inLen` never bounds. An input whose plaintext is longer than `outLen` is written past the
output, which neither hook compares with `outLen`. -/
theorem unprotectTmpData_reads_past_short_input (mode : Mode) (evp : Evp) (inLen outLen : Nat)
    (hinit : evp.initOk = true) (hshort : inLen < prefixLen mode + ivLen mode) :
    ((unprotectTmpData mode evp inLen outLen).status = .cryptoError ∧
      ∃ a ∈ (unprotectTmpData mode evp inLen outLen).accesses, a.buffer = .input ∧
        ¬ a.Within inLen outLen) ∧
    ∀ inLen' outLen', evp.updateOk = true → prefixLen mode + ivLen mode ≤ inLen' →
      inLen' - (prefixLen mode + ivLen mode) < 2 ^ 31 →
      outLen' < evp.updateLen (inLen' - (prefixLen mode + ivLen mode)) →
      ∃ a ∈ (unprotectTmpData mode evp inLen' outLen').accesses, a.write = true ∧
        ¬ a.Within inLen' outLen' := by
  refine ⟨⟨unprotectTmpData_status_of_short mode evp inLen outLen hshort,
    ⟨_, iv_read_mem mode evp inLen outLen hinit, rfl, ?_⟩⟩,
    fun inLen' outLen' hupdate hlong hint hbig =>
      unprotectTmpData_writes_past_output mode evp inLen' outLen' hinit hupdate hlong hint hbig⟩
  simp only [Access.Within]
  omega

/-- A zero-length block of a sorter spill file, under the CBC hook, and a 28-byte block (eight
bytes of ciphertext) decrypted into a 4-byte buffer. -/
theorem unprotectTmpData_reads_past_empty_input :
    (⟨true, true, id, true, true, 0, true⟩ : Evp).initOk = true ∧
      0 < prefixLen .cbc + ivLen .cbc ∧
      (unprotectTmpData .cbc ⟨true, true, id, true, true, 0, true⟩ 0 0).status = .cryptoError ∧
      (∃ a ∈ (unprotectTmpData .cbc ⟨true, true, id, true, true, 0, true⟩ 0 0).accesses,
        a.buffer = .input ∧ ¬ a.Within 0 0) ∧
      ∃ a ∈ (unprotectTmpData .cbc ⟨true, true, id, true, true, 0, true⟩ 28 4).accesses,
        a.write = true ∧ ¬ a.Within 28 4 := by
  have h := unprotectTmpData_reads_past_short_input .cbc ⟨true, true, id, true, true, 0, true⟩
    0 0 rfl (by decide)
  exact ⟨rfl, by decide, h.1.1, h.1.2, h.2 28 4 rfl (by decide) (by decide) (by decide)⟩

end WiredTigerEncryptionHooks

end mongo
