import Mathlib.Tactic.Ring
import MmDriver.Common.Base64

/-!
# What Base64 encodes and decodes

The encoder writes the standard encoding: three bytes as four characters, and `=` for the
characters a last group of fewer bytes does not reach. The decoder reads `=` as six zero bits, so it
gives back the bytes with a zero byte for each `=` (`base64Decode_paddedEncoding`), which are the
bytes themselves exactly when they come in threes (`base64_round_trip_iff`).
-/

namespace MmDriver

namespace Base64

open TransformWidth

/-! ## The encoding -/

/-- The six-bit numbers of a string of bytes: a group of three bytes is a number of 24 bits, and
the last group is filled with zero bits up to its last number. -/
def sextets : List UInt8 → List Nat
  | a :: b :: c :: rest =>
    [a.toNat / 4, a.toNat % 4 * 16 + b.toNat / 16, b.toNat % 16 * 4 + c.toNat / 64, c.toNat % 64] ++
      sextets rest
  | [a, b] => [a.toNat / 4, a.toNat % 4 * 16 + b.toNat / 16, b.toNat % 16 * 4]
  | [a] => [a.toNat / 4, a.toNat % 4 * 16]
  | [] => []

/-- How many characters are missing to a group of four. -/
def padding (x : List UInt8) : Nat := (3 - x.length % 3) % 3

/-- The standard encoding with padding. -/
def paddedEncoding (x : List UInt8) : List UInt8 :=
  (sextets x).map from6Bit ++ List.replicate (padding x) equalSign

theorem sextets_length_le (x : List UInt8) : (sextets x).length ≤ 2 * x.length := by
  induction x using sextets.induct with
  | case1 a b c rest ih =>
    simp only [sextets, List.length_append, List.length_cons, List.length_nil]
    omega
  | case2 => simp [sextets]
  | case3 => simp [sextets]
  | case4 => simp [sextets]

/-! ## Filling a character -/

section Fill

variable {read : UInt8 → Except CopyFault Nat} {bitsIn turns missing r out v : Nat}
  {base : List UInt8} {full atEnd : Bool}

/-- The bits of a buffer that go into the output. -/
theorem takeBits_eq (v k i : Nat) : (v >>> k) &&& ((1 <<< i) - 1) = v / 2 ^ k % 2 ^ i := by
  rw [Nat.one_shiftLeft, Nat.and_two_pow_sub_one_eq_mod, Nat.shiftRight_eq_div_pow]

/-- The output with these bits behind it. -/
theorem putBits_eq {out j i : Nat} (hj : j < 2 ^ i) : out <<< i ||| j = out * 2 ^ i + j := by
  rw [← Nat.shiftLeft_add_eq_or_of_lt hj, Nat.shiftLeft_eq]

/-- One turn of `fill` on a buffer with bits. -/
theorem fillLoop_bits (hr : r ≠ 0) (i : Nat) (hi : min missing r = i) :
    fillLoop read bitsIn (turns + 1) missing ⟨base, full, out, v, r, atEnd⟩ =
      if 0 < missing - i then
        fillLoop read bitsIn turns (missing - i)
          ⟨base, full, (out * 2 ^ i + v / 2 ^ (r - i) % 2 ^ i) % 256, v, r - i, atEnd⟩
      else
        .ok ⟨base, true, (out * 2 ^ i + v / 2 ^ (r - i) % 2 ^ i) % 256, v, r - i, atEnd⟩ := by
  have hlow : v / 2 ^ (r - i) % 2 ^ i < 2 ^ i := Nat.mod_lt _ (Nat.two_pow_pos i)
  rw [← putBits_eq hlow, ← takeBits_eq, fillLoop, refill, if_pos hr]
  dsimp only [Except.bind]
  rw [hi]

/-- The buffer has all the bits that are missing. -/
theorem fillLoop_enough (hmissing : missing ≠ 0) (hr : missing ≤ r) :
    fillLoop read bitsIn (turns + 1) missing ⟨base, full, out, v, r, atEnd⟩ =
      .ok ⟨base, true, (out * 2 ^ missing + v / 2 ^ (r - missing) % 2 ^ missing) % 256, v,
        r - missing, atEnd⟩ := by
  rw [fillLoop_bits (by omega) missing (Nat.min_eq_left hr), Nat.sub_self,
    if_neg (Nat.lt_irrefl 0)]

/-- The buffer is used up. -/
theorem fillLoop_more (hr : r ≠ 0) (hmissing : r < missing) :
    fillLoop read bitsIn (turns + 1) missing ⟨base, full, out, v, r, atEnd⟩ =
      fillLoop read bitsIn turns (missing - r)
        ⟨base, full, (out * 2 ^ r + v % 2 ^ r) % 256, v, 0, atEnd⟩ := by
  rw [fillLoop_bits hr r (Nat.min_eq_right (Nat.le_of_lt hmissing)),
    if_pos (Nat.sub_pos_of_lt hmissing), Nat.sub_self, Nat.pow_zero, Nat.div_one]

/-- The next character is read. -/
theorem fillLoop_read {t : UInt8} {w : Nat} (hread : read t = .ok w) (hbits : bitsIn ≠ 0) :
    fillLoop read bitsIn (turns + 1) missing ⟨t :: base, full, out, v, 0, false⟩ =
      fillLoop read bitsIn (turns + 1) missing ⟨base, full, out, w, bitsIn, false⟩ := by
  have hrefill : refill read bitsIn missing ⟨t :: base, full, out, v, 0, false⟩ =
      refill read bitsIn missing ⟨base, full, out, w, bitsIn, false⟩ := by
    rw [refill, refill, if_neg (not_not.mpr rfl), if_neg Bool.false_ne_true, if_pos hbits]
    dsimp only
    rw [hread]
    rfl
  rw [fillLoop, hrefill, fillLoop]

/-- Behind the end there are zero bits. -/
theorem fillLoop_zeros (hmissing : missing ≠ 0) :
    fillLoop read bitsIn (turns + 1) missing ⟨base, full, out, v, 0, true⟩ =
      .ok ⟨base, true, out * 2 ^ missing % 256, 0, 0, true⟩ := by
  have hrefill : refill read bitsIn missing ⟨base, full, out, v, 0, true⟩ =
      refill read bitsIn missing ⟨base, full, out, 0, missing, true⟩ := by
    rw [refill, refill, if_neg (not_not.mpr rfl), if_pos rfl, if_pos hmissing]
  rw [fillLoop, hrefill, ← fillLoop, fillLoop_enough hmissing (Nat.le_refl _), Nat.sub_self,
    Nat.zero_div, Nat.zero_mod, Nat.add_zero]

end Fill

/-- One turn of the copy. -/
theorem copy_turn {read : UInt8 → Except CopyFault Nat} {bitsOut bitsIn turns out v r : Nat}
    {base : List UInt8} {atEnd : Bool} {s t : TransformWidth}
    (hnext : equalImpl bitsOut bitsIn s = (false, ⟨base, false, out, v, r, atEnd⟩))
    (hfill : fillLoop read bitsIn bitsOut bitsOut ⟨base, false, 0, v, r, atEnd⟩ = .ok t) :
    copy read bitsOut bitsIn (turns + 1) s =
      (copy read bitsOut bitsIn turns t.increment).map (t.bufferOut :: ·) := by
  rw [copy, hnext]
  dsimp only
  rw [if_neg Bool.false_ne_true, dereference, if_pos rfl, fill, hfill]
  rfl

/-! ## The encoder's copy -/

/-- How the encoder reads a character. -/
def readByte (t : UInt8) : Except CopyFault Nat := .ok t.toNat

section Encode

variable (a : UInt8) (rest : List UInt8) (out v turns : Nat) (atEnd : Bool)

/-- A group begins with the upper six bits of a byte. -/
theorem encode_first : copy readByte 6 8 (turns + 1) ⟨a :: rest, false, out, v, 0, false⟩ =
    (copy readByte 6 8 turns ⟨rest, false, a.toNat / 4, a.toNat, 2, false⟩).map
      (a.toNat / 4 :: ·) := by
  have ha := a.toNat_lt
  have hout : (0 * 2 ^ 6 + a.toNat / 2 ^ (8 - 6) % 2 ^ 6) % 256 = a.toNat / 4 := by omega
  refine copy_turn (t := ⟨rest, true, a.toNat / 4, a.toNat, 2, false⟩) rfl ?_
  rw [fillLoop_read rfl (by decide), fillLoop_enough (by decide) (by decide), hout]

/-- Its last two bits, and the upper four of the next. -/
theorem encode_second : copy readByte 6 8 (turns + 1) ⟨a :: rest, false, out, v, 2, false⟩ =
    (copy readByte 6 8 turns
        ⟨rest, false, v % 4 * 16 + a.toNat / 16, a.toNat, 4, false⟩).map
      ((v % 4 * 16 + a.toNat / 16) :: ·) := by
  have ha := a.toNat_lt
  have hout : ((0 * 2 ^ 2 + v % 2 ^ 2) % 256 * 2 ^ 4 + a.toNat / 2 ^ (8 - 4) % 2 ^ 4) % 256 =
      v % 4 * 16 + a.toNat / 16 := by omega
  refine copy_turn (t := ⟨rest, true, v % 4 * 16 + a.toNat / 16, a.toNat, 4, false⟩) rfl ?_
  rw [fillLoop_more (by decide) (by decide), fillLoop_read rfl (by decide),
    fillLoop_enough (by decide) (by decide), hout]

/-- Its last four bits, and the upper two of the next. -/
theorem encode_third : copy readByte 6 8 (turns + 1) ⟨a :: rest, false, out, v, 4, false⟩ =
    (copy readByte 6 8 turns
        ⟨rest, false, v % 16 * 4 + a.toNat / 64, a.toNat, 6, false⟩).map
      ((v % 16 * 4 + a.toNat / 64) :: ·) := by
  have ha := a.toNat_lt
  have hout : ((0 * 2 ^ 4 + v % 2 ^ 4) % 256 * 2 ^ 2 + a.toNat / 2 ^ (8 - 2) % 2 ^ 2) % 256 =
      v % 16 * 4 + a.toNat / 64 := by omega
  refine copy_turn (t := ⟨rest, true, v % 16 * 4 + a.toNat / 64, a.toNat, 6, false⟩) rfl ?_
  rw [fillLoop_more (by decide) (by decide), fillLoop_read rfl (by decide),
    fillLoop_enough (by decide) (by decide), hout]

/-- The end is seen with bits left, or with none. -/
theorem equalImpl_left {r : Nat} (hr : r ≠ 0) :
    equalImpl 6 8 ⟨rest, false, out, v, r, false⟩ =
      (false, ⟨rest, false, out, v, r, rest.isEmpty⟩) := by
  cases rest with
  | nil =>
    have hnot : (r == 0) = false := beq_false_of_ne hr
    simp [equalImpl, hnot]
  | cons => rfl

/-- Its last six bits end the group. -/
theorem encode_fourth : copy readByte 6 8 (turns + 1) ⟨rest, false, out, v, 6, false⟩ =
    (copy readByte 6 8 turns ⟨rest, false, v % 64, v, 0, rest.isEmpty⟩).map (v % 64 :: ·) := by
  have hout : (0 * 2 ^ 6 + v / 2 ^ (6 - 6) % 2 ^ 6) % 256 = v % 64 := by omega
  refine copy_turn (t := ⟨rest, true, v % 64, v, 0, rest.isEmpty⟩)
    (equalImpl_left rest out v (by decide)) ?_
  rw [fillLoop_enough (by decide) (by decide), hout]

/-- Bits that are left at the end are filled up. -/
theorem encode_last {r : Nat} (hr : r ≠ 0) (hfew : r < 6) :
    copy readByte 6 8 (turns + 2) ⟨[], false, out, v, r, false⟩ =
      .ok [v % 2 ^ r * 2 ^ (6 - r)] := by
  have hlow : v % 2 ^ r < 2 ^ r := Nat.mod_lt _ (Nat.two_pow_pos r)
  have hsmall : v % 2 ^ r * 2 ^ (6 - r) < 2 ^ 6 := by
    have hprod : 2 ^ r * 2 ^ (6 - r) = 2 ^ 6 := by
      rw [← Nat.pow_add, Nat.add_sub_cancel' (Nat.le_of_lt hfew)]
    rw [← hprod]
    exact Nat.mul_lt_mul_of_pos_right hlow (Nat.two_pow_pos _)
  have hbits : (0 * 2 ^ r + v % 2 ^ r) % 256 = v % 2 ^ r := by
    have hle : 2 ^ r ≤ 2 ^ 6 := Nat.pow_le_pow_right (by decide) (Nat.le_of_lt hfew)
    omega
  have hfill : fillLoop readByte 8 6 6 ⟨[], false, 0, v, r, true⟩ =
      .ok ⟨[], true, v % 2 ^ r * 2 ^ (6 - r), 0, 0, true⟩ := by
    rw [fillLoop_more hr hfew, fillLoop_zeros (Nat.sub_ne_zero_of_lt hfew), hbits,
      Nat.mod_eq_of_lt (Nat.lt_trans hsmall (by decide))]
  rw [copy_turn (equalImpl_left [] out v hr) hfill]
  rfl

end Encode

/-- The encoder's copy gives the six-bit numbers. -/
theorem encode_copy {x : List UInt8} {out v turns : Nat} {atEnd : Bool}
    (hend : x ≠ [] → atEnd = false) (hturns : (sextets x).length < turns) :
    copy readByte 6 8 turns ⟨x, false, out, v, 0, atEnd⟩ = .ok (sextets x) := by
  induction x using sextets.induct generalizing out v turns atEnd with
  | case1 a b c rest ih =>
    obtain rfl := hend (List.cons_ne_nil _ _)
    simp only [sextets, List.length_append, List.length_cons, List.length_nil] at hturns
    obtain ⟨turns, rfl⟩ : ∃ k, turns = k + 4 := ⟨turns - 4, by omega⟩
    rw [encode_first, encode_second, encode_third, encode_fourth,
      ih (fun hrest => List.isEmpty_eq_false_iff.mpr hrest) (by omega)]
    rfl
  | case2 a b =>
    obtain rfl := hend (List.cons_ne_nil _ _)
    simp only [sextets, List.length_cons, List.length_nil] at hturns
    obtain ⟨turns, rfl⟩ : ∃ k, turns = k + 4 := ⟨turns - 4, by omega⟩
    rw [encode_first, encode_second, encode_last _ _ _ (by decide) (by decide)]
    rfl
  | case3 a =>
    obtain rfl := hend (List.cons_ne_nil _ _)
    simp only [sextets, List.length_cons, List.length_nil] at hturns
    obtain ⟨turns, rfl⟩ : ∃ k, turns = k + 3 := ⟨turns - 3, by omega⟩
    rw [encode_first, encode_last _ _ _ (by decide) (by decide)]
    rfl
  | case4 =>
    obtain ⟨turns, rfl⟩ := Nat.exists_eq_succ_of_ne_zero (Nat.ne_zero_of_lt hturns)
    rfl

/-- **The encoder writes the standard encoding** of every string that is not empty. -/
theorem base64Encode_eq {x : List UInt8} (hx : x ≠ []) :
    base64Encode x = some (true, paddedEncoding x) := by
  have hlen := sextets_length_le x
  have hcopy : copy (fun t => .ok t.toNat) 6 8 (8 * x.length + 1) (TransformWidth.new x) =
      .ok (sextets x) := encode_copy (fun _ => rfl) (by omega)
  have hnonempty : paddedEncoding x ≠ [] := by
    rw [paddedEncoding, Ne, List.append_eq_nil_iff, List.map_eq_nil_iff]
    intro hempty
    exact absurd hempty.1 (by
      induction x using sextets.induct with
      | case4 => exact absurd rfl hx
      | _ => simp [sextets])
  rw [base64Encode, hcopy]
  exact congrArg (fun b => some (!b, paddedEncoding x)) (List.isEmpty_eq_false_iff.mpr hnonempty)

/-! ## The decoder's copy -/

/-- The tables undo one another. -/
theorem to6Bit_from6Bit : ∀ v < 64, to6Bit (from6Bit v) = .ok v := by
  decide

theorem to6Bit_equalSign : to6Bit equalSign = .ok 0 := rfl

section Decode

variable {t t' : UInt8} {w w' : Nat} (rest : List UInt8) (out v turns : Nat)

/-- A byte is a character's six bits, and the upper two of the next. -/
theorem decode_first (ht : to6Bit t = .ok w) (ht' : to6Bit t' = .ok w') (hw : w < 64)
    (hw' : w' < 64) : copy to6Bit 8 6 (turns + 1) ⟨t :: t' :: rest, false, out, v, 0, false⟩ =
      (copy to6Bit 8 6 turns ⟨rest, false, w * 4 + w' / 16, w', 4, false⟩).map
        ((w * 4 + w' / 16) :: ·) := by
  have hout : ((0 * 2 ^ 6 + w % 2 ^ 6) % 256 * 2 ^ 2 + w' / 2 ^ (6 - 2) % 2 ^ 2) % 256 =
      w * 4 + w' / 16 := by omega
  refine copy_turn (t := ⟨rest, true, w * 4 + w' / 16, w', 4, false⟩) rfl ?_
  rw [fillLoop_read ht (by decide), fillLoop_more (by decide) (by decide),
    fillLoop_read ht' (by decide), fillLoop_enough (by decide) (by decide), hout]

/-- Its last four bits, and the upper four of the next. -/
theorem decode_second (ht : to6Bit t = .ok w) (hw : w < 64) :
    copy to6Bit 8 6 (turns + 1) ⟨t :: rest, false, out, v, 4, false⟩ =
      (copy to6Bit 8 6 turns ⟨rest, false, v % 16 * 16 + w / 4, w, 2, false⟩).map
        ((v % 16 * 16 + w / 4) :: ·) := by
  have hout : ((0 * 2 ^ 4 + v % 2 ^ 4) % 256 * 2 ^ 4 + w / 2 ^ (6 - 4) % 2 ^ 4) % 256 =
      v % 16 * 16 + w / 4 := by omega
  refine copy_turn (t := ⟨rest, true, v % 16 * 16 + w / 4, w, 2, false⟩) rfl ?_
  rw [fillLoop_more (by decide) (by decide), fillLoop_read ht (by decide),
    fillLoop_enough (by decide) (by decide), hout]

/-- Its last two bits, and all of the next. -/
theorem decode_third (ht : to6Bit t = .ok w) (hw : w < 64) :
    copy to6Bit 8 6 (turns + 1) ⟨t :: rest, false, out, v, 2, false⟩ =
      (copy to6Bit 8 6 turns ⟨rest, false, v % 4 * 64 + w, w, 0, false⟩).map
        ((v % 4 * 64 + w) :: ·) := by
  have hout : ((0 * 2 ^ 2 + v % 2 ^ 2) % 256 * 2 ^ 6 + w / 2 ^ (6 - 6) % 2 ^ 6) % 256 =
      v % 4 * 64 + w := by omega
  refine copy_turn (t := ⟨rest, true, v % 4 * 64 + w, w, 0, false⟩) rfl ?_
  rw [fillLoop_more (by decide) (by decide), fillLoop_read ht (by decide),
    fillLoop_enough (by decide) (by decide), hout]

/-- Four characters give the three bytes whose bits they hold. -/
theorem decode_group {t₁ t₂ t₃ t₄ : UInt8} {w₁ w₂ w₃ w₄ a b c : Nat} (h₁ : to6Bit t₁ = .ok w₁)
    (h₂ : to6Bit t₂ = .ok w₂) (h₃ : to6Bit t₃ = .ok w₃) (h₄ : to6Bit t₄ = .ok w₄) (hw₁ : w₁ < 64)
    (hw₂ : w₂ < 64) (hw₃ : w₃ < 64) (hw₄ : w₄ < 64) (ha : w₁ * 4 + w₂ / 16 = a)
    (hb : w₂ % 16 * 16 + w₃ / 4 = b) (hc : w₃ % 4 * 64 + w₄ = c) :
    copy to6Bit 8 6 (turns + 3) ⟨t₁ :: t₂ :: t₃ :: t₄ :: rest, false, out, v, 0, false⟩ =
      (copy to6Bit 8 6 turns ⟨rest, false, c, w₄, 0, false⟩).map ([a, b, c] ++ ·) := by
  rw [decode_first _ _ _ _ h₁ h₂ hw₁ hw₂, decode_second _ _ _ _ h₃ hw₃, decode_third _ _ _ _ h₄ hw₄,
    ha, hb, hc]
  cases copy to6Bit 8 6 turns ⟨rest, false, c, w₄, 0, false⟩ <;> rfl

theorem decode_end (turns : Nat) :
    copy to6Bit 8 6 (turns + 1) ⟨[], false, out, v, 0, false⟩ = .ok [] := rfl

end Decode

theorem paddedEncoding_cons (a b c : UInt8) (rest : List UInt8) :
    paddedEncoding (a :: b :: c :: rest) =
      from6Bit (a.toNat / 4) :: from6Bit (a.toNat % 4 * 16 + b.toNat / 16) ::
        from6Bit (b.toNat % 16 * 4 + c.toNat / 64) :: from6Bit (c.toNat % 64) ::
        paddedEncoding rest := by
  have hpadding : padding (a :: b :: c :: rest) = padding rest := by
    simp only [padding, List.length_cons]
    omega
  rw [paddedEncoding, hpadding]
  rfl

/-- The decoder's copy gives the bytes, and a zero for each character that was missing. -/
theorem decode_copy {x : List UInt8} {out v turns : Nat} (hturns : x.length + 2 < turns) :
    copy to6Bit 8 6 turns ⟨paddedEncoding x, false, out, v, 0, false⟩ =
      .ok (x.map UInt8.toNat ++ List.replicate (padding x) 0) := by
  induction x using sextets.induct generalizing out v turns with
  | case1 a b c rest ih =>
    have ha := a.toNat_lt
    have hb := b.toNat_lt
    have hc := c.toNat_lt
    simp only [List.length_cons] at hturns
    obtain ⟨turns, rfl⟩ : ∃ k, turns = k + 3 := ⟨turns - 3, by omega⟩
    have hpadding : padding (a :: b :: c :: rest) = padding rest := by
      simp only [padding, List.length_cons]
      omega
    rw [paddedEncoding_cons, hpadding, decode_group (paddedEncoding rest) out v turns
      (a := a.toNat) (b := b.toNat) (c := c.toNat)
      (to6Bit_from6Bit _ (by omega)) (to6Bit_from6Bit _ (by omega)) (to6Bit_from6Bit _ (by omega))
      (to6Bit_from6Bit _ (by omega)) (by omega) (by omega) (by omega) (by omega) (by omega)
      (by omega) (by omega), ih (by omega)]
    rfl
  | case2 a b =>
    have ha := a.toNat_lt
    have hb := b.toNat_lt
    simp only [List.length_cons, List.length_nil] at hturns
    obtain ⟨turns, rfl⟩ : ∃ k, turns = k + 1 + 3 := ⟨turns - 4, by omega⟩
    have henc : paddedEncoding [a, b] = [from6Bit (a.toNat / 4),
      from6Bit (a.toNat % 4 * 16 + b.toNat / 16), from6Bit (b.toNat % 16 * 4), equalSign] := rfl
    rw [henc, decode_group [] out v (turns + 1) (a := a.toNat) (b := b.toNat) (c := 0)
      (to6Bit_from6Bit _ (by omega)) (to6Bit_from6Bit _ (by omega)) (to6Bit_from6Bit _ (by omega))
      to6Bit_equalSign (by omega) (by omega) (by omega) (by omega) (by omega) (by omega) (by omega),
      decode_end]
    rfl
  | case3 a =>
    have ha := a.toNat_lt
    simp only [List.length_cons, List.length_nil] at hturns
    obtain ⟨turns, rfl⟩ : ∃ k, turns = k + 1 + 3 := ⟨turns - 4, by omega⟩
    have henc : paddedEncoding [a] = [from6Bit (a.toNat / 4), from6Bit (a.toNat % 4 * 16),
      equalSign, equalSign] := rfl
    rw [henc, decode_group [] out v (turns + 1) (a := a.toNat) (b := 0) (c := 0)
      (to6Bit_from6Bit _ (by omega)) (to6Bit_from6Bit _ (by omega)) to6Bit_equalSign
      to6Bit_equalSign (by omega) (by omega) (by omega) (by omega) (by omega) (by omega) (by omega),
      decode_end]
    rfl
  | case4 =>
    obtain ⟨turns, rfl⟩ := Nat.exists_eq_succ_of_ne_zero (Nat.ne_zero_of_lt hturns)
    rfl

theorem paddedEncoding_length (x : List UInt8) : x.length ≤ (paddedEncoding x).length := by
  induction x using sextets.induct with
  | case1 a b c rest ih =>
    rw [paddedEncoding_cons]
    simp only [List.length_cons]
    omega
  | case2 => simp [paddedEncoding, sextets]
  | case3 => simp [paddedEncoding, sextets]
  | case4 => exact Nat.le_refl 0

/-- **The decoder gives back the bytes, and a zero byte for each `=`.** -/
theorem base64Decode_paddedEncoding {x : List UInt8} (hx : x ≠ []) (output : List UInt8) :
    base64Decode (paddedEncoding x) output =
      some (true, x ++ List.replicate (padding x) 0) := by
  have hlen := paddedEncoding_length x
  have hpos : 0 < x.length := List.length_pos_of_ne_nil hx
  have hcopy : copy to6Bit 8 6 (8 * (paddedEncoding x).length + 1)
      (TransformWidth.new (paddedEncoding x)) =
      .ok (x.map UInt8.toNat ++ List.replicate (padding x) 0) := decode_copy (by omega)
  have hchars : (x.map UInt8.toNat ++ List.replicate (padding x) 0).map UInt8.ofNat =
      x ++ List.replicate (padding x) 0 := by
    simp [List.map_append, List.map_map, Function.comp_def]
  rw [base64Decode, hcopy]
  dsimp only
  rw [hchars]
  have hnonempty : x ++ List.replicate (padding x) 0 ≠ [] := fun h =>
    hx (List.append_eq_nil_iff.mp h).1
  exact congrArg (fun b => some (!b, _)) (List.isEmpty_eq_false_iff.mpr hnonempty)

/-- The encoder takes a string and answers with its standard encoding, and the decoder takes that
and answers with the string. -/
def RoundTrips (x : List UInt8) : Prop :=
  base64Encode x = some (true, paddedEncoding x) ∧
    ∀ output, base64Decode (paddedEncoding x) output = some (true, x)

/-- **The round trip** comes back to the string exactly when its length is a multiple of three. -/
theorem base64_round_trip_iff {x : List UInt8} (hx : x ≠ []) :
    RoundTrips x ↔ x.length % 3 = 0 := by
  rw [RoundTrips, and_iff_right (base64Encode_eq hx)]
  have hpadding : padding x = 0 ↔ x.length % 3 = 0 := by
    rw [padding]
    omega
  rw [← hpadding]
  constructor
  · intro hdecode
    have h := (base64Decode_paddedEncoding hx []).symm.trans (hdecode [])
    have hlen := congrArg (fun r => r.2.length) (Option.some.inj h)
    simpa using hlen
  · intro hzero output
    rw [base64Decode_paddedEncoding hx, hzero]
    simp

theorem base64_round_trip_iff_three : RoundTrips [77, 97, 110] ↔ [77, 97, 110].length % 3 = 0 :=
  base64_round_trip_iff (by decide)

/-- One byte comes back as three. -/
theorem one_byte_comes_back_as_three :
    base64Encode [77] = some (true, [84, 81, 61, 61]) ∧
      base64Decode [84, 81, 61, 61] [] = some (true, [77, 0, 0]) ∧ ¬RoundTrips [77] := by
  have hencode : base64Encode [77] = some (true, [84, 81, 61, 61]) := by decide
  have hdecode : base64Decode [84, 81, 61, 61] [] = some (true, [77, 0, 0]) := by decide
  refine ⟨hencode, hdecode, fun h => ?_⟩
  have hsame : paddedEncoding [77] = [84, 81, 61, 61] := by decide
  have hone := h.2 []
  rw [hsame, hdecode] at hone
  exact absurd hone (by decide)

end Base64

end MmDriver
