import PrintServer.Lib.TrialDigit
import PrintServer.Nds.Mpilib
import Mathlib.Tactic.Linarith

/-!
# The modular multiplication of Smith

`mp_quo_digit` never gives less than the digit of the quotient and at most one more, unless a sum
does not fit 32 bits; that cannot happen when the highest bit of the modulus is clear.
-/

namespace PrintServer.Nds

open Lib

/-! ## The trial digit -/

/-- `rec` is the reciprocal of `D`, the leading 32 bits of `M`, rounded up. -/
structure Recip (M n rec mshift D e : Nat) : Prop where
  lower : D * 2 ^ (mshift + e) * 65536 ^ (n - 3) ≤ M
  upper : M < (D + 1) * 2 ^ (mshift + e) * 65536 ^ (n - 3)
  lt : D < 2 ^ 32
  recip_ge : 2 ^ 63 ≤ rec * 2 ^ e * D
  recip_le : rec * 2 ^ e * D ≤ 2 ^ 63 + D
  recip_lt : rec * 2 ^ e ≤ 2 ^ 32
  mshift_lt : mshift ≤ 15

/-- The sum of `mp_quo_digit` before it is shifted by `mshift`. -/
def trialSum (rh rl d0 d1 d2 : Nat) : Nat :=
  let q0 := (d2 * rh + rh) / 2 + (d1 * rl + 65536) / 2 + 1
  let q := q0 / 65536 + d1 * rh / 2 + d0 * rl / 2 + 1
  q / 2 ^ 14 + d0 * rh * 2

variable {M n rh rl mshift D e d0 d1 d2 k w P : Nat}

/-- With the rounding `trialSum` is not less than the product with the reciprocal. -/
theorem trialSum_lower (hrl : rl < 65536)
    (h : k * 2 ^ 47 < (65536 * rh + rl) * (65536 * (65536 * d0 + d1) + d2 + 1))
    (hd2 : d2 < 65536) : k ≤ trialSum rh rl d0 d1 d2 := by
  have hlow : d2 * rl + rl < 65536 * 65536 := by nlinarith
  have hexp : (65536 * rh + rl) * (65536 * (65536 * d0 + d1) + d2 + 1) =
      281474976710656 * (d0 * rh) + 4294967296 * (d0 * rl) + 4294967296 * (d1 * rh) +
        65536 * (d1 * rl) + 65536 * (d2 * rh) + 65536 * rh + (d2 * rl + rl) := by ring
  rw [hexp] at h
  simp only [trialSum]
  omega

theorem trialSum_upper (hrh : rh < 65536) :
    trialSum rh rl d0 d1 d2 * 2 ^ 47 ≤
      (65536 * rh + rl) * (65536 * (65536 * d0 + d1) + d2) + 2 ^ 34 + 2 ^ 17 := by
  have hexp : (65536 * rh + rl) * (65536 * (65536 * d0 + d1) + d2) =
      281474976710656 * (d0 * rh) + 4294967296 * (d0 * rl) + 4294967296 * (d1 * rh) +
        65536 * (d1 * rl) + 65536 * (d2 * rh) + d2 * rl := by ring
  rw [hexp]
  simp only [trialSum]
  omega

theorem Recip.trialSum_bounds (h : Recip M n (65536 * rh + rl) mshift D e) (hn : 3 ≤ n)
    (hrh : rh < 65536) (hrl : rl < 65536) (hd2 : d2 < 65536)
    (hlow : (65536 * (65536 * d0 + d1) + d2) * 65536 ^ (n - 2) ≤ w)
    (hhigh : w < (65536 * (65536 * d0 + d1) + d2 + 1) * 65536 ^ (n - 2)) (hw : w < M * 65536) :
    w / M * 2 ^ mshift ≤ trialSum rh rl d0 d1 d2 ∧
      trialSum rh rl d0 d1 d2 < (w / M + 2) * 2 ^ mshift := by
  set k := w / M with hk
  set U := 65536 * (65536 * d0 + d1) + d2
  set r := 65536 * rh + rl
  have hM : 0 < M := by
    rcases Nat.eq_zero_or_pos M with rfl | hpos
    · omega
    · exact hpos
  have hunits : 65536 ^ (n - 2) = 65536 * 65536 ^ (n - 3) := by
    rw [← pow_succ']
    congr 1
    omega
  have hrpos : 0 < r * 2 ^ e := by
    rcases Nat.eq_zero_or_pos (r * 2 ^ e) with hzero | hpos
    · have hge := h.recip_ge
      rw [hzero, Nat.zero_mul] at hge
      exact absurd hge (by decide)
    · exact hpos
  have hkM : k * M ≤ w := Nat.div_mul_le_self w M
  have hkM' : w < (k + 1) * M := Nat.lt_mul_of_div_lt (Nat.lt_succ_self k) hM
  have hkle : k ≤ 65535 := Nat.lt_succ_iff.mp (Nat.div_lt_of_lt_mul hw)
  rw [hunits] at hlow hhigh
  have hlo := trialDigit_lower h.lower h.recip_ge hrpos hhigh hkM
  have hup := trialDigit_upper h.upper h.recip_le hrpos hlow hkM'
  have hshift : 2 ^ (mshift + e) = 2 ^ mshift * 2 ^ e := pow_add 2 mshift e
  have he : 0 < 2 ^ e := Nat.two_pow_pos e
  set p := 2 ^ mshift
  rw [hshift] at hlo hup
  constructor
  · apply trialSum_lower hrl _ hd2
    have hlt : k * p * 2 ^ 47 * (2 ^ e * 65536) < r * (U + 1) * (2 ^ e * 65536) := calc
      _ = k * (p * 2 ^ e) * 2 ^ 63 := by ring
      _ < r * 2 ^ e * ((U + 1) * 65536) := hlo
      _ = _ := by ring
    exact Nat.lt_of_mul_lt_mul_right hlt
  · have hU : r * U < (k + 1) * p * (2 ^ 47 + 2 ^ 17) := by
      have hD := h.lt
      have hR := h.recip_lt
      have hlt : r * U * (2 ^ e * 65536) <
          (k + 1) * p * (2 ^ 47 + 2 ^ 17) * (2 ^ e * 65536) := calc
        _ = r * 2 ^ e * (U * 65536) := by ring
        _ < (k + 1) * (p * 2 ^ e) * (2 ^ 63 + D + r * 2 ^ e) := hup
        _ ≤ (k + 1) * (p * 2 ^ e) * (2 ^ 63 + 2 ^ 33) := Nat.mul_le_mul_left _ (by omega)
        _ = _ := by ring
      exact Nat.lt_of_mul_lt_mul_right hlt
    have hle : trialSum rh rl d0 d1 d2 * 2 ^ 47 ≤ r * U + 2 ^ 34 + 2 ^ 17 := trialSum_upper hrh
    have hkp : k * p ≤ 65535 * p := Nat.mul_le_mul_right p hkle
    have hp : 0 < p := Nat.two_pow_pos mshift
    have hexp : (k + 1) * p * (2 ^ 47 + 2 ^ 17) = (k * p + p) * (2 ^ 47 + 2 ^ 17) := by ring
    have hgoal : (k + 2) * p = k * p + 2 * p := by ring
    rw [hexp] at hU
    rw [hgoal]
    omega

theorem toNat_mul (x y : UInt16) :
    (x.toUInt32 * y.toUInt32).toNat = x.toNat * y.toNat ∧ x.toNat * y.toNat ≤ 65535 * 65535 := by
  have hx := x.toNat_lt
  have hy := y.toNat_lt
  have hle : x.toNat * y.toNat ≤ 65535 * 65535 := Nat.mul_le_mul (by omega) (by omega)
  rw [UInt32.toNat_mul, UInt16.toNat_toUInt32, UInt16.toNat_toUInt32]
  exact ⟨Nat.mod_eq_of_lt (by omega), hle⟩

theorem toNat_add {p q : UInt32} (h : p.toNat + q.toNat < 2 ^ 32) :
    (p + q).toNat = p.toNat + q.toNat := by
  rw [UInt32.toNat_add, Nat.mod_eq_of_lt h]

theorem toNat_shiftRight32 {p : UInt32} (h : k < 32) :
    (p >>> UInt32.ofNat k).toNat = p.toNat / 2 ^ k := by
  have hk : (UInt32.ofNat k).toNat = k := by
    rw [UInt32.toNat_ofNat']
    omega
  rw [UInt32.toNat_shiftRight, hk, Nat.mod_eq_of_lt h, Nat.shiftRight_eq_div_pow]

/-- In 32 bits `mp_quo_digit` computes the sum when that fits. -/
theorem toNat_mpQuoDigit {s : SmithModulus} {u0 u1 u2 : UInt16} (hm : s.mshift ≤ 15)
    (h : trialSum s.reciph.toNat s.recipl.toNat (~~~u0).toNat (~~~u1).toNat (~~~u2).toNat <
      2 ^ 32) :
    (mpQuoDigit s u0 u1 u2).toNat =
      min (trialSum s.reciph.toNat s.recipl.toNat (~~~u0).toNat (~~~u1).toNat (~~~u2).toNat /
        2 ^ s.mshift) 65535 := by
  have hxor (u : UInt16) : u ^^^ 0xFFFF = ~~~u := UInt16.xor_neg_one
  have hhalf (p : UInt32) : (p >>> 1).toNat = p.toNat / 2 := toNat_shiftRight32 (by decide)
  rw [trialSum] at h ⊢
  simp only [mpQuoDigit, hxor]
  have hrh := s.reciph.toNat_lt
  have hlit : (0x10000 : UInt32).toNat = 65536 := rfl
  have hone : (1 : UInt32).toNat = 1 := rfl
  obtain ⟨h2h, l2h⟩ := toNat_mul (~~~u2) s.reciph
  obtain ⟨h1l, l1l⟩ := toNat_mul (~~~u1) s.recipl
  obtain ⟨h1h, l1h⟩ := toNat_mul (~~~u1) s.reciph
  obtain ⟨h0l, l0l⟩ := toNat_mul (~~~u0) s.recipl
  obtain ⟨h0h, l0h⟩ := toNat_mul (~~~u0) s.reciph
  have hq1 : ((~~~u2).toUInt32 * s.reciph.toUInt32 + s.reciph.toUInt32).toNat =
      (~~~u2).toNat * s.reciph.toNat + s.reciph.toNat := by
    rw [toNat_add (by rw [h2h, UInt16.toNat_toUInt32]; omega), h2h, UInt16.toNat_toUInt32]
  have hq2 : ((~~~u1).toUInt32 * s.recipl.toUInt32 + 0x10000).toNat =
      (~~~u1).toNat * s.recipl.toNat + 65536 := by
    rw [toNat_add (by rw [h1l, hlit]; omega), h1l, hlit]
  generalize (~~~u2).toUInt32 * s.reciph.toUInt32 + s.reciph.toUInt32 = q1 at hq1 ⊢
  generalize (~~~u1).toUInt32 * s.recipl.toUInt32 + 0x10000 = q2 at hq2 ⊢
  generalize (~~~u2).toNat * s.reciph.toNat = n2h at *
  generalize (~~~u1).toNat * s.recipl.toNat = n1l at *
  generalize (~~~u1).toNat * s.reciph.toNat = n1h at *
  generalize (~~~u0).toNat * s.recipl.toNat = n0l at *
  generalize (~~~u0).toNat * s.reciph.toNat = n0h at *
  generalize (~~~u1).toUInt32 * s.reciph.toUInt32 = p1h at *
  generalize (~~~u0).toUInt32 * s.recipl.toUInt32 = p0l at *
  generalize (~~~u0).toUInt32 * s.reciph.toUInt32 = p0h at *
  have hq0 : (q1 >>> 1 + q2 >>> 1 + 1).toNat =
      (n2h + s.reciph.toNat) / 2 + (n1l + 65536) / 2 + 1 := by
    rw [UInt32.toNat_add, UInt32.toNat_add, hhalf, hhalf, hq1, hq2, hone]
    omega
  generalize q1 >>> 1 + q2 >>> 1 + 1 = q0 at hq0 ⊢
  have hq : (q0 >>> 16 + p1h >>> 1 + p0l >>> 1 + 1).toNat =
      ((n2h + s.reciph.toNat) / 2 + (n1l + 65536) / 2 + 1) / 65536 + n1h / 2 + n0l / 2 + 1 := by
    have hq0' : (q0 >>> 16).toNat = q0.toNat / 65536 := toNat_shiftRight32 (by decide)
    rw [UInt32.toNat_add, UInt32.toNat_add, UInt32.toNat_add, hq0', hhalf, hhalf, hq0, h1h, h0l,
      hone]
    omega
  generalize q0 >>> 16 + p1h >>> 1 + p0l >>> 1 + 1 = q at hq ⊢
  generalize ((n2h + s.reciph.toNat) / 2 + (n1l + 65536) / 2 + 1) / 65536 + n1h / 2 +
    n0l / 2 + 1 = n at h hq ⊢
  have hsum : (q >>> 14 + p0h <<< 1).toNat = n / 2 ^ 14 + n0h * 2 := by
    have hlow : (q >>> 14).toNat = q.toNat / 2 ^ 14 := toNat_shiftRight32 (by decide)
    have hhigh : (p0h <<< 1).toNat = p0h.toNat * 2 % 2 ^ 32 := by
      rw [UInt32.toNat_shiftLeft, Nat.shiftLeft_eq]
      rfl
    rw [UInt32.toNat_add, hlow, hhigh, hq, h0h]
    omega
  generalize q >>> 14 + p0h <<< 1 = r at hsum ⊢
  have hshift := toNat_shiftRight32 (p := r) (k := s.mshift) (by omega)
  rw [← hsum, ← hshift]
  generalize r >>> UInt32.ofNat s.mshift = t
  show (if t ≤ 0xFFFF then t else 0xFFFF).toUInt16.toNat = min t.toNat 65535
  by_cases hle : t ≤ 0xFFFF
  · have hle' : t.toNat ≤ 65535 := UInt32.le_iff_toNat_le.mp hle
    rw [if_pos hle, UInt32.toNat_toUInt16, Nat.min_eq_left hle']
    exact Nat.mod_eq_of_lt (by omega)
  · have hlt : ¬ t.toNat ≤ 65535 := fun hnat ↦ hle (UInt32.le_iff_toNat_le.mpr hnat)
    rw [if_neg hle, Nat.min_eq_right (Nat.le_of_not_le hlt)]
    rfl

/-! ## The divide loop -/

/-- What a register of the dividend stands for: it holds the ones' complement. -/
def compl (r : List UInt16) : Nat := val (r.map (~~~·))

variable {d : List UInt16} {s : SmithModulus}

theorem compl_append (xs ys : List UInt16) :
    compl (xs ++ ys) = compl xs + 65536 ^ xs.length * compl ys := by
  rw [compl, List.map_append, val_append, List.length_map, compl, compl]

theorem compl_lt (r : List UInt16) : compl r < 65536 ^ r.length := by
  have hlt := val_lt (r.map (~~~·))
  rwa [List.length_map] at hlt

theorem compl_add_val (r : List UInt16) : compl r + val r + 1 = 65536 ^ r.length := val_not

theorem compl_not (r : List UInt16) : compl (r.map (~~~·)) = val r := by
  rw [compl, List.map_map]
  congr 1
  exact (List.map_congr_left fun x _ ↦ UInt16.not_not).trans (List.map_id r)

theorem compl_take_add_drop (n : Nat) (h : n ≤ d.length) :
    compl d = compl (d.take n) + 65536 ^ n * compl (d.drop n) := by
  conv_lhs => rw [← List.take_append_drop n d, compl_append, List.length_take, Nat.min_eq_left h]

theorem compl_drop_of_lt (hn : n ≤ d.length) (h : compl d < 65536 ^ n) :
    compl (d.drop n) = 0 := by
  rw [compl, List.map_drop]
  exact val_drop_of_lt (hn.trans_eq (List.length_map _).symm) h

theorem compl_take_of_lt (hn : n ≤ d.length) (h : compl d < 65536 ^ n) :
    compl (d.take n) = compl d := by
  rw [compl_take_add_drop n hn, compl_drop_of_lt hn h, Nat.mul_zero, Nat.add_zero]

theorem val_drop (r : List UInt16) (i : Nat) :
    val (r.drop i) = (r.getD i 0).toNat + 65536 * val (r.drop (i + 1)) := by
  rw [← List.drop_drop]
  cases hd : r.drop i with
  | nil =>
    have hle : r.length ≤ i := List.drop_eq_nil_iff.mp hd
    rw [List.getD_eq_default _ _ hle]
    rfl
  | cons x xs =>
    have hx : r.getD i 0 = x := by
      have hget := @List.getElem?_drop _ r i 0
      rw [hd, List.getElem?_cons_zero] at hget
      rw [List.getD_eq_getElem?_getD, ← Nat.add_zero i, ← hget, Option.getD_some]
    rw [hx, val_cons, List.drop_one, List.tail_cons]

/-- The three units below `65536 ^ (i + 3)`. -/
theorem val_leading {r : List UInt16} {i : Nat} (hi : i ≤ r.length) (h : val r < 65536 ^ (i + 3)) :
    (65536 * (65536 * (r.getD (i + 2) 0).toNat + (r.getD (i + 1) 0).toNat) +
        (r.getD i 0).toNat) * 65536 ^ i ≤ val r ∧
      val r < (65536 * (65536 * (r.getD (i + 2) 0).toNat + (r.getD (i + 1) 0).toNat) +
        (r.getD i 0).toNat + 1) * 65536 ^ i := by
  have hsplit := val_take_add_drop i hi
  have hlow : val (r.take i) < 65536 ^ i :=
    (val_lt (r.take i)).trans_le (Nat.pow_le_pow_right (by decide) (List.length_take_le i r))
  have hhigh : val (r.drop i) < 65536 ^ 3 := by
    rw [pow_add] at h
    exact Nat.lt_of_mul_lt_mul_left (Nat.lt_of_le_of_lt (by omega) h)
  have h0 := val_drop r i
  have h1 : val (r.drop (i + 1)) = _ + 65536 * val (r.drop (i + 2)) := val_drop r (i + 1)
  have h2 := val_drop r (i + 2)
  set top := 65536 * (65536 * (r.getD (i + 2) 0).toNat + (r.getD (i + 1) 0).toNat) +
    (r.getD i 0).toNat
  have htop : val (r.drop i) = top := by omega
  rw [htop] at hsplit
  rw [Nat.mul_comm, Nat.mul_comm (top + 1), Nat.mul_succ]
  omega

/-- The numbers that `stage_smith_modulus` finds are right for the modulus. -/
structure Staged (s : SmithModulus) (D e : Nat) : Prop where
  modlen : s.modlen = s.modulus.length
  three_le : 3 ≤ s.modulus.length
  recip : Recip (val s.modulus) s.modulus.length (65536 * s.reciph.toNat + s.recipl.toNat)
    s.mshift D e

theorem Recip.pos {rec : Nat} (h : Recip M n rec mshift D e) : 0 < M := by
  rcases Nat.eq_zero_or_pos D with rfl | hD
  · exact absurd h.recip_ge (by simp)
  · have hpos : 0 < D * 2 ^ (mshift + e) * 65536 ^ (n - 3) := by positivity
    exact hpos.trans_le h.lower

/-- The trial digit is the digit of the quotient or one more. -/
theorem Staged.digit (h : Staged s D e) (hlen : s.modulus.length < d.length)
    (hw : compl d < val s.modulus * 65536) :
    compl d / val s.modulus ≤ (mpQuoDigit s (d.getD s.modulus.length 0)
        (d.getD (s.modulus.length - 1) 0) (d.getD (s.modulus.length - 2) 0)).toNat ∧
      (mpQuoDigit s (d.getD s.modulus.length 0) (d.getD (s.modulus.length - 1) 0)
        (d.getD (s.modulus.length - 2) 0)).toNat ≤ compl d / val s.modulus + 1 := by
  have h3 := h.three_le
  set n := s.modulus.length
  have hunit (i : Nat) (hi : i < d.length) : (~~~d.getD i 0) = (d.map (~~~·)).getD i 0 := by
    rw [List.getD_eq_getElem?_getD, List.getD_eq_getElem?_getD, List.getElem?_map,
      List.getElem?_eq_getElem hi]
    rfl
  have hroom : compl d < 65536 ^ (n - 2 + 3) := by
    have hlt := val_lt s.modulus
    have hpow : 65536 ^ (n - 2 + 3) = 65536 ^ n * 65536 := by
      rw [← pow_succ]
      congr 1
      omega
    rw [hpow]
    exact hw.trans_le (Nat.mul_le_mul_right 65536 hlt.le)
  obtain ⟨hlow, hhigh⟩ := val_leading (r := d.map (~~~·)) (i := n - 2)
    (by rw [List.length_map]; omega) hroom
  have h1 : n - 2 + 1 = n - 1 := by omega
  have h2 : n - 2 + 2 = n := by omega
  rw [h1, h2, ← hunit _ (by omega), ← hunit _ (by omega), ← hunit _ (by omega)] at hlow hhigh
  obtain ⟨hge, hlt⟩ := h.recip.trialSum_bounds h3 s.reciph.toNat_lt s.recipl.toNat_lt
    (UInt16.toNat_lt _) hlow hhigh hw
  have hk : compl d / val s.modulus ≤ 65535 := Nat.lt_succ_iff.mp (Nat.div_lt_of_lt_mul hw)
  have hp : 0 < 2 ^ s.mshift := Nat.two_pow_pos _
  have hp' : 2 ^ s.mshift ≤ 2 ^ 15 := Nat.pow_le_pow_right (by decide) h.recip.mshift_lt
  change compl d / val s.modulus * _ ≤ _ at hge
  change _ < (compl d / val s.modulus + 2) * _ at hlt
  have hfit := hlt.trans_le (Nat.mul_le_mul (Nat.add_le_add_right hk 2) hp')
  rw [toNat_mpQuoDigit h.recip.mshift_lt (by omega)]
  rw [← Nat.le_div_iff_mul_le hp] at hge
  rw [← Nat.div_lt_iff_lt_mul hp] at hlt
  exact ⟨le_min hge (hk.trans (by decide)), (min_le_left _ _).trans (Nat.le_of_lt_succ hlt)⟩

theorem getD_append (h : n < d.length) (xs : List UInt16) : (d ++ xs).getD n 0 = d.getD n 0 := by
  rw [List.getD_eq_getElem?_getD, List.getElem?_append_left h, ← List.getD_eq_getElem?_getD]

@[simp] theorem length_correctStep : (correctStep s d).length = d.length := by
  have hlen : ((mpSubb (d.take s.modulus.length) s.modulus false).1 ++
      d.drop s.modulus.length).length = d.length := by
    rw [List.length_append, length_mpSubb, ← List.length_append, List.take_append_drop]
  unfold correctStep
  split
  · simp only []
    split
    · rw [List.length_modify, hlen]
    · exact hlen
  · rfl

theorem length_divideStep : (divideStep s d).length = d.length := by
  unfold divideStep
  simp only []
  split
  · rw [length_correctStep, length_mpSmul]
  · rfl

theorem exists_unit (h : n < d.length) :
    ∃ zs y hi, d = zs ++ y :: hi ∧ zs.length = n ∧ d.getD n 0 = y := by
  refine ⟨d.take n, d.getD n 0, d.drop (n + 1), ?_, ?_, rfl⟩
  · rw [List.getD_eq_getElem _ _ h, List.getElem_cons_drop, List.take_append_drop]
  · rw [List.length_take, Nat.min_eq_left h.le]

/-- The correction at the highest unit of the window. -/
theorem correctStep_unit {zs hi : List UInt16} {y : UInt16} (hs : s.modlen = zs.length)
    (hlen : s.modulus.length = zs.length) :
    correctStep s (zs ++ y :: hi) =
      if y &&& 0x8000 = 0 then (mpSubb zs s.modulus false).1 ++
        (if (mpSubb zs s.modulus false).2 then y - 1 else y) :: hi
      else zs ++ y :: hi := by
  have hy : (zs ++ y :: hi).getD zs.length 0 = y := by
    rw [List.getD_append_right _ _ _ _ (Nat.le_refl _), Nat.sub_self, List.getD_cons_zero]
  have hmod : ((mpSubb zs s.modulus false).1 ++ y :: hi).modify zs.length (· - 1) =
      (mpSubb zs s.modulus false).1 ++ (y - 1) :: hi := by
    rw [List.modify_eq_take_drop, List.take_left' length_mpSubb, List.drop_left' length_mpSubb,
      List.modifyHead_cons]
  unfold correctStep
  simp only [hs, hlen, hy, List.take_left, List.drop_left, hmod]
  split
  · split
    · rfl
    · rfl
  · rfl

theorem correctStep_append (hs : s.modlen = s.modulus.length) (h : s.modulus.length < d.length)
    (xs : List UInt16) : correctStep s (d ++ xs) = correctStep s d ++ xs := by
  obtain ⟨zs, y, hi, rfl, hlen, -⟩ := exists_unit h
  rw [List.append_assoc, List.cons_append, correctStep_unit (hs.trans hlen.symm) hlen.symm,
    correctStep_unit (hs.trans hlen.symm) hlen.symm]
  split
  · rw [List.append_assoc, List.cons_append]
  · rw [List.append_assoc, List.cons_append]

theorem divideStep_append (hs : s.modlen = s.modulus.length) (h : s.modulus.length < d.length)
    (xs : List UInt16) : divideStep s (d ++ xs) = divideStep s d ++ xs := by
  unfold divideStep
  simp only [getD_append (show s.modlen < d.length by omega),
    getD_append (show s.modlen - 1 < d.length by omega),
    getD_append (show s.modlen - 2 < d.length by omega), mpSmul_append h]
  split
  · exact correctStep_append hs (by rw [length_mpSmul]; exact h) xs
  · rfl

/-- A remainder has the sign bit and stays. -/
theorem correctStep_of_compl_lt (hs : s.modlen = s.modulus.length)
    (hlen : d.length = s.modulus.length + 1) (h : compl d < 65536 ^ s.modulus.length) :
    correctStep s d = d := by
  obtain ⟨zs, y, hi, rfl, hzs, -⟩ := exists_unit (d := d) (n := s.modulus.length) (by omega)
  rw [compl_append, hzs] at h
  have hy : y = 0xFFFF := by
    have hzero : compl (y :: hi) = 0 := by
      by_contra hne
      have hle := Nat.le_mul_of_pos_right (65536 ^ s.modulus.length) (Nat.pos_of_ne_zero hne)
      omega
    rw [compl, List.map_cons, val_cons, toNat_not] at hzero
    have hlt := y.toNat_lt
    apply UInt16.toNat_inj.mp
    show y.toNat = 65535
    omega
  rw [correctStep_unit (hs.trans hzs.symm) hzs.symm, hy, if_neg (by decide)]

/-- A number that wrapped to `v` has no sign bit; the correction takes the modulus back. -/
theorem compl_correctStep (hs : s.modlen = s.modulus.length)
    (hlen : d.length = s.modulus.length + 1) (h : val d < val s.modulus) :
    compl (correctStep s d) + val d + 1 = val s.modulus := by
  obtain ⟨zs, y, hi, rfl, hzs, -⟩ := exists_unit (d := d) (n := s.modulus.length) (by omega)
  have hhi : hi = [] := by
    rw [List.length_append, List.length_cons] at hlen
    exact List.eq_nil_of_length_eq_zero (by omega)
  subst hhi
  have hM := val_lt s.modulus
  rw [val_append, val_cons, val_nil, Nat.mul_zero, Nat.add_zero, hzs] at h ⊢
  have hy : y = 0 := by
    by_contra hne
    have hpos : 0 < y.toNat := Nat.pos_of_ne_zero fun hzero ↦ hne (UInt16.toNat_inj.mp hzero)
    have hle := Nat.le_mul_of_pos_right (65536 ^ s.modulus.length) hpos
    omega
  subst hy
  have hsub := val_mpSubb false hzs
  have hlow := compl_add_val (mpSubb zs s.modulus false).1
  rw [UInt16.toNat_zero, Nat.mul_zero, Nat.add_zero] at h ⊢
  rw [correctStep_unit (hs.trans hzs.symm) hzs.symm, if_pos (by decide), compl_append]
  rw [length_mpSubb] at hlow ⊢
  rw [Bool.toNat_false, Nat.add_zero] at hsub
  cases hb : (mpSubb zs s.modulus false).2 with
  | false =>
    rw [hb, Bool.toNat_false] at hsub
    omega
  | true =>
    rw [hb, Bool.toNat_true] at hsub
    have htop : compl [(0 : UInt16) - 1] = 0 := by decide
    rw [if_pos rfl, htop]
    omega

/-- On a window of a unit more than the modulus a turn leaves the remainder. -/
theorem Staged.compl_divideStep_window (h : Staged s D e) (hlen : d.length = s.modulus.length + 1)
    (hw : compl d < val s.modulus * 65536) :
    compl (divideStep s d) = compl d % val s.modulus := by
  obtain ⟨hge, hle⟩ := h.digit (by omega) hw
  unfold divideStep
  rw [h.modlen]
  simp only []
  set q := mpQuoDigit s (d.getD s.modulus.length 0) (d.getD (s.modulus.length - 1) 0)
    (d.getD (s.modulus.length - 2) 0)
  set M := val s.modulus with hM
  have hpos : 0 < M := h.recip.pos
  have hMlt : M < 65536 ^ s.modulus.length := val_lt s.modulus
  have hmod : compl d % M + M * (compl d / M) = compl d := Nat.mod_add_div _ _
  have hmodlt := Nat.mod_lt (compl d) hpos
  have hadd := compl_add_val d
  by_cases hq : q > 0
  · have hval : val (mpSmul q d s.modulus) = (val d + q.toNat * M) % 65536 ^ d.length :=
      val_mpSmul hlen
    have hlen' : (mpSmul q d s.modulus).length = s.modulus.length + 1 := by
      rw [length_mpSmul, hlen]
    have hpow : 65536 ^ d.length = 65536 ^ s.modulus.length * 65536 := by rw [hlen, pow_succ]
    rw [if_pos hq]
    rcases (show q.toNat = compl d / M ∨ q.toNat = compl d / M + 1 by omega) with hk | hk
    · have hsum : val d + q.toNat * M + compl d % M + 1 = 65536 ^ d.length := by
        rw [hk, Nat.mul_comm]
        omega
      have hadd' := compl_add_val (mpSmul q d s.modulus)
      rw [hval, Nat.mod_eq_of_lt (by omega), length_mpSmul] at hadd'
      have hcompl : compl (mpSmul q d s.modulus) = compl d % M := by omega
      rw [correctStep_of_compl_lt h.modlen hlen' (by omega), hcompl]
    · have hsum : val d + q.toNat * M + compl d % M + 1 = 65536 ^ d.length + M := by
        rw [hk, Nat.mul_comm, Nat.mul_succ]
        omega
      have hwrap : val (mpSmul q d s.modulus) + compl d % M + 1 = M := by
        have hsub : val d + q.toNat * M = 65536 ^ d.length + (M - compl d % M - 1) := by omega
        rw [hval, hsub, Nat.add_mod_left, Nat.mod_eq_of_lt (by omega)]
        omega
      have hback := compl_correctStep h.modlen hlen' (by omega)
      omega
  · have hzero : q.toNat = 0 := by
      have hnot : ¬ 0 < q.toNat := fun hlt ↦ hq (UInt16.lt_iff_toNat_lt.mpr hlt)
      omega
    have hdiv : compl d / M = 0 := Nat.le_zero.mp (hge.trans hzero.le)
    rw [if_neg hq]
    rw [hdiv, Nat.mul_zero, Nat.add_zero] at hmod
    exact hmod.symm

theorem Staged.compl_divideStep (h : Staged s D e) (hlen : s.modulus.length < d.length)
    (hw : compl d < val s.modulus * 65536) :
    compl (divideStep s d) = compl d % val s.modulus := by
  have hfit : compl d < 65536 ^ (s.modulus.length + 1) := by
    rw [pow_succ]
    exact hw.trans_le (Nat.mul_le_mul_right 65536 (val_lt s.modulus).le)
  have hlen' : (d.take (s.modulus.length + 1)).length = s.modulus.length + 1 := by
    rw [List.length_take, Nat.min_eq_left hlen]
  have htake := compl_take_of_lt hlen hfit
  conv_lhs => rw [← List.take_append_drop (s.modulus.length + 1) d,
    divideStep_append h.modlen (by omega), compl_append, compl_drop_of_lt hlen hfit,
    Nat.mul_zero, Nat.add_zero]
  rw [← htake] at hw ⊢
  exact h.compl_divideStep_window hlen' hw

@[simp] theorem length_divideLoop (nqd : Nat) : (divideLoop s nqd d).length = d.length := by
  induction nqd generalizing d with
  | zero => rfl
  | succ nqd ih =>
    rw [divideLoop, ih, List.length_append, length_divideStep, ← List.length_append,
      List.take_append_drop]

/-- The loop takes the dividend to its remainder. -/
theorem Staged.compl_divideLoop (h : Staged s D e) (nqd : Nat)
    (hlen : nqd + s.modulus.length ≤ d.length) (hw : compl d < val s.modulus * 65536 ^ nqd) :
    compl (divideLoop s nqd d) = compl d % val s.modulus := by
  induction nqd generalizing d with
  | zero =>
    rw [pow_zero, Nat.mul_one] at hw
    rw [divideLoop, Nat.mod_eq_of_lt hw]
  | succ nqd ih =>
    have hsplit := compl_take_add_drop (d := d) nqd (by omega)
    have htake : (d.take nqd).length = nqd := by
      rw [List.length_take]
      omega
    have hlow := compl_lt (d.take nqd)
    rw [htake] at hlow
    have hhigh : compl (d.drop nqd) < val s.modulus * 65536 := by
      have hlt : 65536 ^ nqd * compl (d.drop nqd) < 65536 ^ nqd * (val s.modulus * 65536) := by
        rw [pow_succ, ← Nat.mul_assoc, Nat.mul_right_comm] at hw
        rw [Nat.mul_comm (65536 ^ nqd) (val s.modulus * 65536)]
        omega
      exact Nat.lt_of_mul_lt_mul_left hlt
    have hstep := h.compl_divideStep (d := d.drop nqd) (by rw [List.length_drop]; omega) hhigh
    have hnext : compl (d.take nqd ++ divideStep s (d.drop nqd)) =
        compl (d.take nqd) + 65536 ^ nqd * (compl (d.drop nqd) % val s.modulus) := by
      rw [compl_append, htake, hstep]
    rw [divideLoop, ih, hnext, hsplit]
    · rw [Nat.add_mod, Nat.mul_mod, Nat.mod_mod, ← Nat.mul_mod, ← Nat.add_mod]
    · rw [List.length_append, length_divideStep, ← List.length_append, List.take_append_drop]
      omega
    · have hmodlt := Nat.mod_lt (compl (d.drop nqd)) h.recip.pos
      have hle := Nat.mul_le_mul_left (65536 ^ nqd) hmodlt
      rw [hnext, Nat.mul_comm (val s.modulus)]
      rw [Nat.mul_succ] at hle
      omega

/-- The product of Smith is the product modulo the modulus, for any two registers. -/
theorem Staged.val_smithModmult (h : Staged s D e) {multiplicand multiplier : List UInt16}
    (hlow : 65536 ^ (s.modulus.length - 1) ≤ val s.modulus)
    (ha : multiplicand.length = s.modulus.length) (hb : multiplier.length = s.modulus.length) :
    val (smithModmult s multiplicand multiplier) =
      val multiplicand * val multiplier % val s.modulus := by
  have h3 := h.three_le
  have hpos := h.recip.pos
  set n := s.modulus.length
  have hM : val s.modulus < 65536 ^ n := val_lt s.modulus
  unfold smithModmult
  rw [h.modlen, ha]
  set p := mpDmul multiplicand multiplier ++ [0] with hp
  have hplen : p.length = 2 * n + 1 := by
    rw [hp, List.length_append, length_mpDmul (ha.trans hb.symm), ha]
    rfl
  have hpval : val p = val multiplicand * val multiplier := by
    rw [hp, val_append, val_mpDmul (ha.trans hb.symm)]
    simp
  rw [← hpval]
  have hsig := val_lt_significance p
  simp only []
  split
  · have hdmi : significance p ≤ 2 * n := by
      rw [significance_le_iff, hpval, Nat.two_mul, pow_add]
      have hlta := val_lt multiplicand
      have hltb := val_lt multiplier
      rw [ha] at hlta
      rw [hb] at hltb
      exact Nat.mul_lt_mul'' hlta hltb
    have hw : compl (p.map (~~~·)) < val s.modulus * 65536 ^ (significance p + 1 - n) := by
      have hpow : 65536 ^ significance p =
          65536 ^ (n - 1) * 65536 ^ (significance p + 1 - n) := by
        rw [← pow_add]
        congr 1
        omega
      rw [compl_not]
      rw [hpow] at hsig
      exact hsig.trans_le (Nat.mul_le_mul_right _ hlow)
    have hrem := h.compl_divideLoop (significance p + 1 - n) (d := p.map (~~~·))
      (by rw [List.length_map]; omega) hw
    rw [compl_not] at hrem
    rw [mpNeg_mpInc, mpDec_mpNeg]
    set r := divideLoop s (significance p + 1 - n) (p.map (~~~·))
    have hrlen : r.length = 2 * n + 1 := by rw [length_divideLoop, List.length_map, hplen]
    have hmodlt := Nat.mod_lt (val p) hpos
    exact (compl_take_of_lt (by omega) (by omega)).trans hrem
  · have hlt : val p < 65536 ^ (n - 1) := significance_le_iff.mp (by omega)
    rw [Nat.mod_eq_of_lt (hlt.trans_le hlow), val_take_of_lt (by omega) (by omega)]

end PrintServer.Nds
