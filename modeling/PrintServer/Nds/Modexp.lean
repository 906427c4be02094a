import PrintServer.Nds.SmithModmult

/-!
# The modular power

`stage_smith_modulus` on a modulus of more than 32 bits whose highest unit has its highest bit
clear, and `mp_modexp` over it.
-/

namespace PrintServer.Nds

/-! ## The reciprocal -/

variable {divisor remainder quotient r : List UInt16} {Q bits : Nat}

@[simp] theorem length_mpSub {r1 r2 : List UInt16} : (mpSub r1 r2).length = r1.length :=
  length_mpSubb

@[simp] theorem length_mpShiftLeft : (mpShiftLeft r).length = r.length := length_mpRotateLeft

/-- With `bits` turns left the quotient stands for `Q`, and each turn doubles what is divided. -/
theorem recipLoop_spec (hr : remainder.length = divisor.length)
    (hq : quotient.length = divisor.length) (hD : 2 * val divisor < 65536 ^ divisor.length)
    (hle : val remainder ≤ val divisor) (hQ : val quotient = 2 ^ (bits + 1) * Q)
    (hbits : bits < 16 * divisor.length) :
    ∃ Q' rem, val (recipLoop divisor bits remainder quotient) = 2 * Q' ∧
      Q' * val divisor + rem = 2 ^ bits * (Q * val divisor + val remainder) ∧
      rem ≤ val divisor ∧ Q' < 2 ^ bits * (Q + 1) := by
  induction bits generalizing remainder quotient Q with
  | zero =>
    refine ⟨Q, val remainder, ?_, ?_, hle, ?_⟩
    · rw [recipLoop, hQ]
      ring
    · rw [pow_zero, Nat.one_mul]
    · omega
  | succ bits ih =>
    have hdouble : val (mpShiftLeft remainder) = 2 * val remainder :=
      val_mpShiftLeft (by rw [hr]; omega)
    have hlen : (mpShiftLeft remainder).length = divisor.length := by
      rw [length_mpShiftLeft, hr]
    rw [recipLoop]
    simp only [mpCompare_nonneg_iff hlen, hdouble]
    split
    · rename_i hge
      have hsub : val (mpSub (mpShiftLeft remainder) divisor) =
          2 * val remainder - val divisor := by
        rw [val_mpSub hlen (by omega), hdouble]
      have hset : val (mpSetbit quotient (bits + 1)) = 2 ^ (bits + 1) * (2 * Q + 1) := by
        have hlt : 2 ^ (bits + 1) < 2 ^ (bits + 1 + 1) :=
          Nat.pow_lt_pow_right (by decide) (by omega)
        rw [val_mpSetbit (by omega), hQ, ← Nat.two_pow_add_eq_or_of_lt hlt]
        ring
      have hlen' : (mpSub (mpShiftLeft remainder) divisor).length = divisor.length := by
        rw [length_mpSub, hlen]
      obtain ⟨Q', rem, hval, heq, hrem, hlt⟩ := ih hlen' (by rw [length_mpSetbit, hq])
        (by omega) hset (by omega)
      refine ⟨Q', rem, hval, ?_, hrem, ?_⟩
      · have hback : (2 * Q + 1) * val divisor + (2 * val remainder - val divisor) =
            2 * (Q * val divisor + val remainder) := by
          rw [Nat.add_mul, Nat.one_mul, Nat.mul_assoc]
          omega
        rw [heq, hsub, hback]
        ring
      · rw [pow_succ, Nat.mul_assoc]
        exact hlt
    · have hQ2 : val quotient = 2 ^ (bits + 1) * (2 * Q) := by
        rw [hQ]
        ring
      obtain ⟨Q', rem, hval, heq, hrem, hlt⟩ := ih hlen hq (by omega) hQ2 (by omega)
      refine ⟨Q', rem, hval, ?_, hrem, ?_⟩
      · rw [heq, hdouble]
        ring
      · rw [pow_succ, Nat.mul_assoc]
        exact hlt.trans_le (Nat.mul_le_mul_left _ (by omega))

/-- The reciprocal of a divisor is below `2 ^ (2 * size - 1)` over it by less than a unit. -/
theorem mpRecip_spec (h : 0 < val divisor) (hD : 2 * val divisor < 65536 ^ divisor.length) :
    ∃ Q rem, val (mpRecip divisor) = 2 * Q ∧ rem ≤ val divisor ∧
      Q * val divisor + rem = 2 ^ (val divisor).size * 2 ^ ((val divisor).size - 1) ∧
      Q < 2 ^ (val divisor).size := by
  have hpos : 0 < (val divisor).size := Nat.size_pos.mpr h
  have hlow : 2 ^ ((val divisor).size - 1) ≤ val divisor := Nat.lt_size.mp (by omega)
  have hsize : (val divisor).size < 16 * divisor.length := by
    have hlt : (2 * val divisor).size ≤ 16 * divisor.length := by
      rw [Nat.size_le, pow_mul]
      exact hD
    have hgt : (val divisor).size < (2 * val divisor).size := by
      rw [Nat.lt_size]
      have hpow : 2 ^ (val divisor).size = 2 * 2 ^ ((val divisor).size - 1) := by
        rw [← pow_succ']
        congr 1
        omega
      omega
    omega
  have hstart : val (mpSetbit (List.replicate divisor.length 0) ((val divisor).size - 1)) =
      2 ^ ((val divisor).size - 1) := by
    rw [val_mpSetbit (by rw [List.length_replicate]; omega), val_replicate_zero, Nat.zero_or]
  have hlen : (mpSetbit (List.replicate divisor.length 0) ((val divisor).size - 1)).length =
      divisor.length := by
    rw [length_mpSetbit, List.length_replicate]
  have hzero : val (List.replicate divisor.length 0) = 2 ^ ((val divisor).size + 1) * 0 := by
    rw [val_replicate_zero, Nat.mul_zero]
  obtain ⟨Q, rem, hval, heq, hrem, hlt⟩ := recipLoop_spec hlen List.length_replicate hD
    (hstart.le.trans hlow) hzero hsize
  refine ⟨Q, rem, ?_, hrem, ?_, ?_⟩
  · rw [mpRecip, countbits_eq]
    exact hval
  · rw [heq, hstart, Nat.zero_mul, Nat.zero_add]
  · simpa using hlt

theorem length_recipLoop :
    (recipLoop divisor bits remainder quotient).length = quotient.length := by
  induction bits generalizing remainder quotient with
  | zero => rfl
  | succ bits ih =>
    rw [recipLoop]
    split
    · rw [ih, length_mpSetbit]
    · exact ih

theorem length_lowerLoop {f : UInt16 → UInt16 → UInt16 × UInt16} :
    (lowerLoop f r).1.length = r.length := by
  induction r with
  | nil => rfl
  | cons x xs ih => rw [lowerLoop, List.length_cons, ih, List.length_cons]

theorem length_mpShiftRightBits : (mpShiftRightBits r bits).length = r.length := by
  unfold mpShiftRightBits
  split
  · rfl
  · split
    · exact length_lowerLoop
    · exact length_lowerLoop

/-- The quotient that `stage_smith_modulus` makes of 32 bits. -/
theorem modQuotient_spec (hlen : divisor.length = 3) (hsize : (val divisor).size = 32) :
    2 ^ 63 ≤ val (modQuotient divisor) * val divisor ∧
      val (modQuotient divisor) * val divisor ≤ 2 ^ 63 + val divisor ∧
      val (modQuotient divisor) ≤ 2 ^ 32 := by
  have hlt : val divisor < 2 ^ 32 := Nat.size_le.mp hsize.le
  have hpos : 0 < val divisor := Nat.size_pos.mp (by omega)
  obtain ⟨Q, rem, hval, hrem, heq, hQ⟩ := mpRecip_spec hpos (by rw [hlen]; omega)
  rw [hsize] at heq hQ
  have hhalf : val (mpShiftRightBits (mpRecip divisor) 1) = Q := by
    rw [val_mpShiftRightBits (by decide), hval]
    omega
  have hinc : val (modQuotient divisor) = Q + 1 := by
    rw [modQuotient, val_mpInc, hhalf]
    rw [hhalf, length_mpShiftRightBits, mpRecip, length_recipLoop, List.length_replicate, hlen]
    omega
  rw [hinc, Nat.add_mul, Nat.one_mul]
  omega

/-! ## Staging the modulus -/

variable {modulus expin exponent : List UInt16} {n : Nat}

/-- The two units that are kept of a number below `2 ^ 32`. -/
theorem val_two_units (h : val r < 2 ^ 32) :
    65536 * (r.getD 1 0).toNat + (r.getD 0 0).toNat = val r := by
  have h0 : val r = _ + 65536 * val (r.drop 1) := val_drop r 0
  have h1 := val_drop r 1
  omega

/-- A modulus that `stage_smith_modulus` can handle. -/
structure Stageable (modulus : List UInt16) : Prop where
  three_le : 3 ≤ modulus.length
  low : 65536 ^ (modulus.length - 1) ≤ val modulus
  clear : 2 * val modulus < 65536 ^ modulus.length

theorem Stageable.significance_eq (h : Stageable modulus) :
    significance modulus = modulus.length := by
  apply Nat.le_antisymm
  · exact significance_le_iff.mpr (val_lt modulus)
  · by_contra hlt
    have hsmall := significance_le_iff.mp (show significance modulus ≤ modulus.length - 1 by omega)
    exact absurd h.low (by omega)

theorem Stageable.modlen (h : Stageable modulus) :
    (countbits modulus + 15) / 16 = modulus.length := by
  have h3 := h.three_le
  have hle : (val modulus).size ≤ 16 * modulus.length := by
    rw [Nat.size_le, pow_mul]
    exact val_lt modulus
  have hlt : 16 * (modulus.length - 1) < (val modulus).size := by
    rw [Nat.lt_size, pow_mul]
    exact h.low
  rw [countbits_eq]
  omega

theorem Stageable.modDivisor_eq (h : Stageable modulus) :
    modDivisor modulus = modulus.drop (modulus.length - 3) := by
  rw [modDivisor, h.significance_eq, List.take_of_length_le]
  rw [List.length_drop]
  omega

theorem Stageable.val_modDivisor (h : Stageable modulus) :
    val (modDivisor modulus) = val modulus / 65536 ^ (modulus.length - 3) := by
  have hsplit := val_take_add_drop (r := modulus) (modulus.length - 3) (by omega)
  have hlow := val_lt (modulus.take (modulus.length - 3))
  have hpos : 0 < 65536 ^ (modulus.length - 3) := Nat.pow_pos (by decide)
  rw [List.length_take, Nat.min_eq_left (by omega)] at hlow
  rw [h.modDivisor_eq, hsplit, Nat.add_mul_div_left _ _ hpos, Nat.div_eq_of_lt hlow, Nat.zero_add]

theorem Stageable.modDivisor_bounds (h : Stageable modulus) :
    2 ^ 32 ≤ val (modDivisor modulus) ∧ val (modDivisor modulus) < 2 ^ 47 := by
  have h3 := h.three_le
  have hpos : 0 < 65536 ^ (modulus.length - 3) := Nat.pow_pos (by decide)
  rw [h.val_modDivisor, Nat.le_div_iff_mul_le hpos, Nat.div_lt_iff_lt_mul hpos]
  have hlow := h.low
  have hclear := h.clear
  have hone : modulus.length - 1 = 2 + (modulus.length - 3) := by omega
  have hall : modulus.length = 3 + (modulus.length - 3) := by omega
  rw [hone, pow_add] at hlow
  rw [hall, pow_add] at hclear
  omega

/-- The `k` leading bits of a number. -/
theorem size_div_two_pow {T k : Nat} (hk : 0 < k) (h : k ≤ T.size) :
    (T / 2 ^ (T.size - k)).size = k := by
  have hpos := Nat.two_pow_pos (T.size - k)
  apply Nat.le_antisymm
  · rw [Nat.size_le, Nat.div_lt_iff_lt_mul hpos, ← pow_add, Nat.add_sub_cancel' h]
    exact Nat.lt_size_self T
  · have hlow : 2 ^ (T.size - 1) ≤ T := Nat.lt_size.mp (by omega)
    have hlt : k - 1 < (T / 2 ^ (T.size - k)).size := by
      rw [Nat.lt_size, Nat.le_div_iff_mul_le hpos, ← pow_add]
      have hexp : k - 1 + (T.size - k) = T.size - 1 := by omega
      rwa [hexp]
    omega

theorem Stageable.staged (h : Stageable modulus) :
    ∃ D e, Staged (stageSmithModulus modulus) D e := by
  have hpos : 0 < 65536 ^ (modulus.length - 3) := Nat.pow_pos (by decide)
  obtain ⟨hge, hlt⟩ := h.modDivisor_bounds
  have hT := h.val_modDivisor
  have hsize : 32 < (val (modDivisor modulus)).size := Nat.lt_size.mpr hge
  have hsize' : (val (modDivisor modulus)).size ≤ 47 := Nat.size_le.mpr hlt
  have hlen : (modDivisor modulus).length = 3 := by
    have h3 := h.three_le
    rw [h.modDivisor_eq, List.length_drop]
    omega
  unfold stageSmithModulus
  rw [countbits_eq (modDivisor modulus), h.modlen]
  generalize hS : (val (modDivisor modulus)).size - 32 = S
  have hmod : (S + 15) % 16 + 1 = S := by omega
  have hD : val (mpShiftRightBits (modDivisor modulus) S) = val (modDivisor modulus) / 2 ^ S :=
    val_mpShiftRightBits (by omega)
  have hDsize : (val (mpShiftRightBits (modDivisor modulus) S)).size = 32 := by
    rw [hD, ← hS]
    exact size_div_two_pow (by decide) hsize.le
  obtain ⟨hrge, hrle, hrlt⟩ := modQuotient_spec (by rw [length_mpShiftRightBits, hlen]) hDsize
  have hDlt := Nat.size_le.mp hDsize.le
  simp only [hmod]
  generalize modQuotient (mpShiftRightBits (modDivisor modulus) S) = q at hrge hrle hrlt ⊢
  generalize val (mpShiftRightBits (modDivisor modulus) S) = D at hD hDsize hrge hrle hDlt
  have hlower : D * 2 ^ S * 65536 ^ (modulus.length - 3) ≤ val modulus := by
    have hle : D * 2 ^ S ≤ val (modDivisor modulus) := hD ▸ Nat.div_mul_le_self _ _
    rw [hT] at hle
    exact (Nat.mul_le_mul_right _ hle).trans (Nat.div_mul_le_self _ _)
  have hupper : val modulus < (D + 1) * 2 ^ S * 65536 ^ (modulus.length - 3) := by
    have hle : val (modDivisor modulus) < (D + 1) * 2 ^ S :=
      Nat.lt_mul_of_div_lt (by omega) (Nat.two_pow_pos S)
    exact Nat.lt_mul_of_div_lt (hT ▸ hle) hpos
  by_cases hbig : countbits q > 32
  · have hR : val q = 2 ^ 32 := Nat.le_antisymm hrlt (Nat.lt_size.mp (countbits_eq q ▸ hbig))
    have hhalf : val (mpShiftRightBits q 1) = 2 ^ 31 := by
      rw [val_mpShiftRightBits (by decide), hR]
      rfl
    have htwo := val_two_units (r := mpShiftRightBits q 1) (by rw [hhalf]; decide)
    have hshift : S - 1 + 1 = S := by omega
    simp only [hbig, decide_true, if_true]
    refine ⟨D, 1, rfl, h.three_le, ?_⟩
    simp only [htwo, hhalf]
    rw [hR] at hrge hrle
    exact ⟨by rw [hshift]; exact hlower, by rw [hshift]; exact hupper, hDlt, hrge, hrle,
      by decide, by omega⟩
  · have hR : val q < 2 ^ 32 := Nat.size_le.mp (countbits_eq q ▸ Nat.le_of_not_lt hbig)
    have htwo := val_two_units hR
    simp only [hbig, decide_false, Bool.false_eq_true, if_false]
    refine ⟨D, 0, rfl, h.three_le, ?_⟩
    simp only [htwo]
    exact ⟨hlower, hupper, hDlt, by rwa [pow_zero, Nat.mul_one], by rwa [pow_zero, Nat.mul_one],
      by rwa [pow_zero, Nat.mul_one], by omega⟩

/-! ## The power -/

theorem length_smithModmult {s : SmithModulus} {a b : List UInt16} (h : a.length = b.length) :
    (smithModmult s a b).length = a.length := by
  have hlen : (mpDmul a b ++ [0]).length = 2 * a.length + 1 := by
    rw [List.length_append, length_mpDmul h]
    rfl
  unfold smithModmult
  simp only []
  split
  · rw [mpDec_mpNeg, List.length_map, List.length_take, length_divideLoop, mpNeg_mpInc,
      List.length_map, hlen]
    omega
  · rw [List.length_take, hlen]
    omega

theorem Stageable.val_smithModmult (h : Stageable modulus) {a b : List UInt16}
    (ha : a.length = modulus.length) (hb : b.length = modulus.length) :
    val (smithModmult (stageSmithModulus modulus) a b) = val a * val b % val modulus := by
  obtain ⟨D, e, hs⟩ := h.staged
  exact hs.val_smithModmult h.low ha hb

/-- With `bits` bits left the loop has the power with the bits above them. -/
theorem Stageable.modexpLoop_spec (h : Stageable modulus) {expout : List UInt16}
    (hin : expin.length = modulus.length) (hout : expout.length = modulus.length) (bits : Nat)
    (hpow : val expout = val expin ^ (val exponent / 2 ^ bits) % val modulus) :
    (modexpLoop (stageSmithModulus modulus) expin exponent bits expout).length =
        modulus.length ∧
      val (modexpLoop (stageSmithModulus modulus) expin exponent bits expout) =
        val expin ^ val exponent % val modulus := by
  induction bits generalizing expout with
  | zero =>
    rw [pow_zero, Nat.div_one] at hpow
    exact ⟨hout, hpow⟩
  | succ bits ih =>
    have hplen : (smithModmult (stageSmithModulus modulus) expout expout).length =
        modulus.length := by
      rw [length_smithModmult rfl, hout]
    have hhalf : val exponent / 2 ^ bits =
        2 * (val exponent / 2 ^ (bits + 1)) + ((val exponent).testBit bits).toNat := by
      rw [Nat.toNat_testBit, pow_succ, ← Nat.div_div_eq_div_mul]
      omega
    have hsquare : val (smithModmult (stageSmithModulus modulus) expout expout) =
        val expin ^ (2 * (val exponent / 2 ^ (bits + 1))) % val modulus := by
      rw [h.val_smithModmult hout hout, hpow, ← Nat.mul_mod, ← pow_add, Nat.two_mul]
    rw [modexpLoop, mpTstbit_eq]
    cases hbit : (val exponent).testBit bits with
    | false =>
      rw [hbit, Bool.toNat_false, Nat.add_zero] at hhalf
      simp only [Bool.false_eq_true, if_false]
      apply ih hplen
      rw [hsquare, hhalf]
    | true =>
      rw [hbit, Bool.toNat_true] at hhalf
      simp only [if_true]
      apply ih
      · rw [length_smithModmult (by rw [hplen, hin]), hplen]
      · rw [h.val_smithModmult hplen hin, hsquare, Nat.mod_mul_mod, hhalf, pow_succ (val expin)]

/-- The units that the modulus needs, for `set_precision`. -/
theorem stageable_take (hbits : 32 < countbits modulus) (hclear : countbits modulus % 16 ≠ 0) :
    (countbits modulus + 15) / 16 ≤ modulus.length ∧
      Stageable (modulus.take ((countbits modulus + 15) / 16)) ∧
      val (modulus.take ((countbits modulus + 15) / 16)) = val modulus := by
  have hle : countbits modulus ≤ 16 * modulus.length := by
    rw [countbits_eq, Nat.size_le, pow_mul]
    exact val_lt modulus
  have hn : (countbits modulus + 15) / 16 ≤ modulus.length := by omega
  have hlen : (modulus.take ((countbits modulus + 15) / 16)).length =
      (countbits modulus + 15) / 16 := by
    rw [List.length_take, Nat.min_eq_left hn]
  have hclear' : 2 * val modulus < 65536 ^ ((countbits modulus + 15) / 16) := by
    have hlt : val modulus < 2 ^ (16 * ((countbits modulus + 15) / 16) - 1) := by
      rw [← Nat.size_le, ← countbits_eq]
      omega
    have hpow : 65536 ^ ((countbits modulus + 15) / 16) =
        2 * 2 ^ (16 * ((countbits modulus + 15) / 16) - 1) := by
      rw [← pow_succ', show 65536 = 2 ^ 16 from rfl, ← pow_mul]
      congr 1
      omega
    omega
  have hval := val_take_of_lt hn (show val modulus < _ by omega)
  refine ⟨hn, ⟨?_, ?_, ?_⟩, hval⟩
  · omega
  · rw [hlen, hval, show 65536 = 2 ^ 16 from rfl, ← pow_mul, ← Nat.lt_size, ← countbits_eq]
    omega
  · rw [hlen, hval]
    exact hclear'

/-- The power of a modulus of more than 32 bits, whose bits do not fill its highest unit.  It is that
of the code for registers of up to `MAX_UNIT_PRECISION` units. -/
theorem val_mpModexp (hin : expin.length = modulus.length)
    (hexp : exponent.length = modulus.length) (hbits : 32 < countbits modulus)
    (hclear : countbits modulus % 16 ≠ 0) (hin' : val expin < val modulus)
    (hexp' : val exponent < val modulus) (hzero : val exponent ≠ 0 ∨ val expin ≠ 0) :
    ∃ expout, mpModexp expin exponent modulus = .ok expout ∧ expout.length = modulus.length ∧
      val expout = val expin ^ val exponent % val modulus := by
  have hone : 1 < val modulus := by
    rw [countbits_eq, Nat.lt_size] at hbits
    omega
  obtain ⟨hn, hstage, hmod⟩ := stageable_take hbits hclear
  unfold mpModexp
  simp only [significance_eq_zero_iff, mpCompare_nonneg_iff hin, mpCompare_nonneg_iff hexp]
  generalize (countbits modulus + 15) / 16 = n at hn hstage hmod ⊢
  have hmlen : (modulus.take n).length = n := by rw [List.length_take, Nat.min_eq_left hn]
  have hroom : val modulus < 65536 ^ n := by
    have hlt := val_lt (modulus.take n)
    rwa [hmod, hmlen] at hlt
  by_cases hE : val exponent = 0
  · refine ⟨_, by rw [if_pos hE, if_neg (by tauto)], ?_, ?_⟩
    · rw [List.length_set, List.length_replicate]
    · rw [hE, pow_zero, Nat.mod_eq_of_lt hone]
      cases modulus with
      | nil => exact absurd hone (by decide)
      | cons x xs => simp [List.replicate_succ]
  · have hexpin : val (expin.take n) = val expin :=
      val_take_of_lt (by omega) (hin'.trans hroom)
    have hexponent : val (exponent.take n) = val exponent :=
      val_take_of_lt (by omega) (hexp'.trans hroom)
    have hsize : val exponent / 2 ^ ((val exponent).size - 1) = 1 := by
      have hlow : 2 ^ ((val exponent).size - 1) ≤ val exponent := by
        have hpos := Nat.size_pos.mpr (Nat.pos_of_ne_zero hE)
        exact Nat.lt_size.mp (by omega)
      have hhigh : val exponent < 2 * 2 ^ ((val exponent).size - 1) := by
        have hpos := Nat.size_pos.mpr (Nat.pos_of_ne_zero hE)
        rw [← pow_succ', Nat.sub_add_cancel hpos]
        exact Nat.lt_size_self _
      exact Nat.div_eq_of_lt_le (by omega) (by omega)
    have hlen : (expin.take n).length = (modulus.take n).length := by
      rw [List.length_take, List.length_take, hin]
    have hstart : val (expin.take n) = val (expin.take n) ^
        (val (exponent.take n) / 2 ^ ((val exponent).size - 1)) % val (modulus.take n) := by
      rw [hexponent, hsize, pow_one, hexpin, hmod, Nat.mod_eq_of_lt hin']
    have hloop := hstage.modexpLoop_spec hlen hlen ((val exponent).size - 1) hstart
    rw [hexpin, hexponent, hmod, hmlen] at hloop
    refine ⟨_, by rw [if_neg hE, if_neg (by omega), if_neg (by omega), if_neg (by omega)], ?_, ?_⟩
    · rw [List.length_append, countbits_eq, hexponent, hloop.1, List.length_replicate]
      omega
    · rw [val_append, countbits_eq, hexponent, hloop.2, val_replicate_zero, Nat.mul_zero,
        Nat.add_zero]

/-- A power to the exponent 65537. -/
theorem val_mpModexp_key :
    ∃ expout, mpModexp [7, 7, 7] [1, 1, 0] [3, 5, 0x4000] = .ok expout ∧ expout.length = 3 ∧
      val expout = val [7, 7, 7] ^ val [1, 1, 0] % val [3, 5, 0x4000] :=
  val_mpModexp rfl rfl (by decide) (by decide) (by decide) (by decide) (.inl (by decide))

end PrintServer.Nds
