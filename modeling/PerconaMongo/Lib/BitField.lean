-- Fixed-width fields packed into a natural number, lowest field first: the layout of a machine
-- word that holds equal slots above a header. Such a word is `header + 2 ^ offset * pack`
-- of its slots. Setting a slot by `|||` with a shifted value, and reading one by `&&&` with a
-- shifted mask and `>>>`, are addition and division with remainder on that form.
import Mathlib.Data.Nat.Bitwise
import Mathlib.Tactic.Ring

namespace bit_field

/-- The number whose `width`-bit fields, lowest first, are `fields`. -/
def pack (width : Nat) : List Nat → Nat
  | [] => 0
  | x :: xs => x + 2 ^ width * pack width xs

/-- Every field fits its width. -/
def Fits (width : Nat) (fields : List Nat) : Prop := ∀ x ∈ fields, x < 2 ^ width

variable {width : Nat}

theorem Fits.cons {x : Nat} {xs : List Nat} (h : Fits width (x :: xs)) :
    x < 2 ^ width ∧ Fits width xs :=
  ⟨h x (List.mem_cons_self ..), fun y hy => h y (List.mem_cons_of_mem _ hy)⟩

/-- The field at `i` is read back by shifting the lower fields out and masking. -/
theorem pack_div_mod {fields : List Nat} (h : Fits width fields) {i : Nat}
    (hi : i < fields.length) :
    pack width fields / 2 ^ (width * i) % 2 ^ width = fields[i] := by
  induction fields generalizing i with
  | nil => simp at hi
  | cons x xs ih =>
    obtain ⟨hx, hxs⟩ := h.cons
    cases i with
    | zero => simp [pack, Nat.add_mul_mod_self_left, Nat.mod_eq_of_lt hx]
    | succ i =>
      have hdiv : (x + 2 ^ width * pack width xs) / 2 ^ width = pack width xs := by
        rw [Nat.add_mul_div_left _ _ (Nat.two_pow_pos _), Nat.div_eq_of_lt hx, Nat.zero_add]
      rw [pack, Nat.mul_succ, Nat.add_comm (width * i), Nat.pow_add, ← Nat.div_div_eq_div_mul,
        hdiv]
      exact ih hxs (by simpa using hi)

/-- An `|||` into bits above every bit of `a` is an addition. -/
theorem or_shiftLeft_eq_add {a s : Nat} (x : Nat) (ha : a < 2 ^ s) :
    a ||| x <<< s = a + 2 ^ s * x := by
  rw [Nat.or_comm, ← Nat.shiftLeft_add_eq_or_of_lt ha, Nat.shiftLeft_eq, Nat.mul_comm,
    Nat.add_comm]

/-- An exclusive or with all ones below `w` is the complement below `w`. -/
theorem xor_two_pow_sub_one {x w : Nat} (h : x < 2 ^ w) : x ^^^ (2 ^ w - 1) = 2 ^ w - 1 - x := by
  have hx : (BitVec.ofNat w x).toNat = x := by simp [Nat.mod_eq_of_lt h]
  have hnot := @BitVec.toNat_not w (BitVec.ofNat w x)
  rw [← BitVec.xor_allOnes, BitVec.toNat_xor, BitVec.toNat_allOnes, hx] at hnot
  exact hnot

/-- Masking a field in place and shifting it down reads the field. -/
theorem and_shiftLeft_shiftRight (n w s : Nat) :
    (n &&& (2 ^ w - 1) <<< s) >>> s = n / 2 ^ s % 2 ^ w := by
  apply Nat.eq_of_testBit_eq
  intro i
  simp only [Nat.testBit_shiftRight, Nat.testBit_and, Nat.testBit_shiftLeft,
    Nat.testBit_two_pow_sub_one, Nat.testBit_mod_two_pow, Nat.testBit_div_two_pow]
  by_cases hi : i < w
  · simp [hi, Nat.add_comm i s]
  · simp [hi]

section Fold

variable {α : Type*} (slot : α → Nat) (step : Nat → α × Nat → Nat) (offset bits : Nat)

/-- Setting the fields one after the other, from field `k` on, into a `bits`-wide word that
all of them fit: each `|||` of a field shifted to its place is an addition, so the fold adds
the packed fields above the word it starts from. -/
theorem foldl_or_shiftLeft
    (hstep : ∀ acc a i, step acc (a, i) = acc ||| (slot a <<< (width * i + offset)) % 2 ^ bits)
    (xs : List α) (k acc : Nat) (hacc : acc < 2 ^ (offset + width * k))
    (hfits : Fits width (xs.map slot)) (hbits : offset + width * (k + xs.length) ≤ bits) :
    (xs.zipIdx k).foldl step acc = acc + 2 ^ (offset + width * k) * pack width (xs.map slot) := by
  induction xs generalizing k acc with
  | nil => simp [pack]
  | cons x xs ih =>
    obtain ⟨hx, hxs⟩ := (show Fits width (slot x :: xs.map slot) from hfits).cons
    have hpos : width * k + offset = offset + width * k := Nat.add_comm _ _
    have hk : offset + width * (k + 1) ≤ bits := by
      have := Nat.mul_le_mul_left width (show k + 1 ≤ k + (xs.length + 1) by omega)
      simp only [List.length_cons] at hbits
      omega
    -- the field lies below `bits`, so the word's wrap-around does not cut it
    have hlt : slot x <<< (offset + width * k) < 2 ^ bits := by
      rw [Nat.shiftLeft_eq]
      calc slot x * 2 ^ (offset + width * k)
          < 2 ^ width * 2 ^ (offset + width * k) :=
            Nat.mul_lt_mul_of_pos_right hx (Nat.two_pow_pos _)
        _ = 2 ^ (offset + width * (k + 1)) := by rw [← Nat.pow_add]; ring_nf
        _ ≤ 2 ^ bits := Nat.pow_le_pow_right (by omega) hk
    have hset : step acc (x, k) = acc + 2 ^ (offset + width * k) * slot x := by
      rw [hstep, hpos, Nat.mod_eq_of_lt hlt, or_shiftLeft_eq_add _ hacc]
    have hacc' : acc + 2 ^ (offset + width * k) * slot x < 2 ^ (offset + width * (k + 1)) := by
      calc acc + 2 ^ (offset + width * k) * slot x
          < 2 ^ (offset + width * k) * (slot x + 1) := by rw [Nat.mul_succ]; omega
        _ ≤ 2 ^ (offset + width * k) * 2 ^ width := Nat.mul_le_mul_left _ hx
        _ = 2 ^ (offset + width * (k + 1)) := by rw [← Nat.pow_add]; ring_nf
    have hbits' : offset + width * (k + 1 + xs.length) ≤ bits := by
      rwa [show k + 1 + xs.length = k + (x :: xs).length by simp; omega]
    rw [List.zipIdx_cons, List.foldl_cons, hset, ih (k + 1) _ hacc' hxs hbits']
    simp only [List.map_cons, pack]
    rw [show offset + width * (k + 1) = offset + width * k + width by ring, Nat.pow_add]
    ring

end Fold

/-- A field of a word made of a header and packed fields above it. -/
theorem header_pack_div_mod {header offset : Nat} {fields : List Nat} (hh : header < 2 ^ offset)
    (h : Fits width fields) {i : Nat} (hi : i < fields.length) :
    (header + 2 ^ offset * pack width fields) / 2 ^ (offset + width * i) % 2 ^ width =
      fields[i] := by
  have hdiv : (header + 2 ^ offset * pack width fields) / 2 ^ offset = pack width fields := by
    rw [Nat.add_mul_div_left _ _ (Nat.two_pow_pos _), Nat.div_eq_of_lt hh, Nat.zero_add]
  rw [Nat.pow_add, ← Nat.div_div_eq_div_mul, hdiv]
  exact pack_div_mod h hi

end bit_field
