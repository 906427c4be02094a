import Mathlib.Data.Nat.Bitwise
import Mathlib.Data.Nat.Digits.Defs
import Mathlib.Data.Nat.Size
import Mathlib.Tactic.Ring

/-!
# Multiprecision integers

mpilib.c as platform.h sets it up: units of 16 bits, the lowest one first, and the modular
multiplication of Smith.  A register is the list of its units, as many as `global_precision`, which
callers keep to `MAX_UNIT_PRECISION` = 80: `product` and `modulus` hold as many, `ds_data` twice as
many and two more.
-/

namespace PrintServer.Nds

/-- A turn of the loop of `mp_subb`. -/
def subUnit (x y : UInt16) (borrow : Bool) : UInt16 × Bool :=
  if borrow then (x - y - 1, x ≤ y) else (x - y, x < y)

def mpSubb : List UInt16 → List UInt16 → Bool → List UInt16 × Bool
  | x :: xs, y :: ys, borrow =>
    let r := subUnit x y borrow
    let rest := mpSubb xs ys r.2
    (r.1 :: rest.1, rest.2)
  | xs, _, borrow => (xs, borrow)

def mpSub (r1 r2 : List UInt16) : List UInt16 := (mpSubb r1 r2 false).1

def mpRotateLeft : List UInt16 → Bool → List UInt16 × Bool
  | x :: xs, carry =>
    let rest := mpRotateLeft xs (0x8000 ≤ x)
    ((x <<< 1 ||| carry.toUInt16) :: rest.1, rest.2)
  | [], carry => ([], carry)

def mpShiftLeft (r1 : List UInt16) : List UInt16 := (mpRotateLeft r1 false).1

/-- A loop from the highest unit down that changes each unit and hands a carry to the next. -/
def lowerLoop (f : UInt16 → UInt16 → UInt16 × UInt16) : List UInt16 → List UInt16 × UInt16
  | [] => ([], 0)
  | x :: xs =>
    let rest := lowerLoop f xs
    let r := f x rest.2
    (r.1 :: rest.1, r.2)

def mpShiftRightBits (r1 : List UInt16) (bits : Nat) : List UInt16 :=
  if bits = 0 then r1
  else if bits = 16 then (lowerLoop (fun x carry ↦ (carry, x)) r1).1
  else
    let bitmask := (1 <<< UInt16.ofNat bits) - 1
    (lowerLoop (fun x carry ↦
      (x >>> UInt16.ofNat bits ||| carry <<< UInt16.ofNat (16 - bits), x &&& bitmask)) r1).1

def mpCompare : List UInt16 → List UInt16 → Int
  | x :: xs, y :: ys =>
    let higher := mpCompare xs ys
    if higher ≠ 0 then higher else if x < y then -1 else if x > y then 1 else 0
  | _, _ => 0

def mpInc : List UInt16 → List UInt16
  | [] => []
  | x :: xs => if x + 1 ≠ 0 then (x + 1) :: xs else (x + 1) :: mpInc xs

def mpDec : List UInt16 → List UInt16
  | [] => []
  | x :: xs => if x - 1 ≠ 0xFFFF then (x - 1) :: xs else (x - 1) :: mpDec xs

def mpNeg (r : List UInt16) : List UInt16 := (mpDec r).map (~~~·)

def significance : List UInt16 → Nat
  | [] => 0
  | x :: xs =>
    let n := significance xs
    if n ≠ 0 then n + 1 else if x ≠ 0 then 1 else 0

def mpTstbit (r : List UInt16) (n : Nat) : Bool :=
  r.getD (n / 16) 0 &&& 1 <<< UInt16.ofNat (n % 16) ≠ 0

def mpSetbit (r : List UInt16) (n : Nat) : List UInt16 :=
  r.set (n / 16) (r.getD (n / 16) 0 ||| 1 <<< UInt16.ofNat (n % 16))

/-- The loop of `init_bitsniffer`, with `n` bits left to look at. -/
def initBitsniffer (r : List UInt16) : Nat → Nat
  | 0 => 0
  | n + 1 => if mpTstbit r n then n + 1 else initBitsniffer r n

def countbits (r : List UInt16) : Nat := initBitsniffer r (16 * significance r)

/-- The loop of `mp_recip` with `bits` turns left, which are the bits of the quotient. -/
def recipLoop (divisor : List UInt16) : Nat → List UInt16 → List UInt16 → List UInt16
  | 0, _, quotient => quotient
  | bits + 1, remainder, quotient =>
    let remainder := mpShiftLeft remainder
    if 0 ≤ mpCompare remainder divisor then
      recipLoop divisor bits (mpSub remainder divisor) (mpSetbit quotient (bits + 1))
    else recipLoop divisor bits remainder quotient

def mpRecip (divisor : List UInt16) : List UInt16 :=
  let zero := List.replicate divisor.length 0
  recipLoop divisor (countbits divisor) (mpSetbit zero (countbits divisor - 1)) zero

/-- The loop of `mp_smul`, with the carry that is left. -/
def smulLoop (multiplier : UInt16) :
    List UInt16 → List UInt16 → UInt32 → List UInt16 × UInt32
  | y :: prod, x :: multiplicand, carry =>
    let p := multiplier.toUInt32 * x.toUInt32 + (y.toUInt32 + carry)
    let rest := smulLoop multiplier prod multiplicand (p >>> 16)
    (p.toUInt16 :: rest.1, rest.2)
  | _, _, carry => ([], carry)

def mpSmul (multiplier : UInt16) (prod multiplicand : List UInt16) : List UInt16 :=
  let r := smulLoop multiplier prod multiplicand 0
  r.1 ++ (prod.drop multiplicand.length).modifyHead (· + r.2.toUInt16)

/-- The loop of `mp_dmul` over the units of the multiplier. -/
def dmulLoop (multiplicand : List UInt16) : List UInt16 → List UInt16 → List UInt16
  | [], prod => prod
  | y :: multiplier, prod =>
    let prod := mpSmul y prod multiplicand
    prod.take 1 ++ dmulLoop multiplicand multiplier (prod.drop 1)

def mpDmul (multiplicand multiplier : List UInt16) : List UInt16 :=
  dmulLoop multiplicand multiplier (List.replicate (2 * multiplicand.length) 0)

/-- What `stage_smith_modulus` keeps for `smith_modmult`. -/
structure SmithModulus where
  modulus : List UInt16
  modlen : Nat
  mshift : Nat
  reciph : UInt16
  recipl : UInt16

/-- `mp_quo_digit` on the three units of the dividend from `dividend[0]` down. -/
def mpQuoDigit (s : SmithModulus) (d0 d1 d2 : UInt16) : UInt16 :=
  let reciph := s.reciph.toUInt32
  let recipl := s.recipl.toUInt32
  let half (p : UInt32) := p >>> 1
  let q1 := (d2 ^^^ 0xFFFF).toUInt32 * reciph + reciph
  let q2 := (d1 ^^^ 0xFFFF).toUInt32 * recipl + 0x10000
  let q0 := half q1 + half q2 + 1
  let q1 := (d1 ^^^ 0xFFFF).toUInt32 * reciph
  let q2 := (d0 ^^^ 0xFFFF).toUInt32 * recipl
  let q := (q0 >>> (16 : UInt32)) + half q1 + half q2 + 1
  let q := (q >>> (14 : UInt32)) + (((d0 ^^^ 0xFFFF).toUInt32 * reciph) <<< (1 : UInt32))
  (min (q >>> UInt32.ofNat s.mshift) 0xFFFF).toUInt16

/-- The leading three units of the modulus. -/
def modDivisor (nModulus : List UInt16) : List UInt16 :=
  (nModulus.drop (significance nModulus - 3)).take 3

/-- The reciprocal of `mod_divisor`, rounded up. -/
def modQuotient (modDivisor : List UInt16) : List UInt16 :=
  mpInc (mpShiftRightBits (mpRecip modDivisor) 1)

def stageSmithModulus (nModulus : List UInt16) : SmithModulus :=
  let mshift := countbits (modDivisor nModulus) - 32
  let quotient := modQuotient (mpShiftRightBits (modDivisor nModulus) mshift)
  let mshift := (mshift + 15) % 16 + 1
  let large : Bool := countbits quotient > 32
  let scaled := if large then mpShiftRightBits quotient 1 else quotient
  { modulus := nModulus
    modlen := (countbits nModulus + 15) / 16
    mshift := if large then mshift - 1 else mshift
    reciph := scaled.getD 1 0
    recipl := scaled.getD 0 0 }

/-- The correction in `smith_modmult` when the trial digit was too large. -/
def correctStep (s : SmithModulus) (d : List UInt16) : List UInt16 :=
  if d.getD s.modlen 0 &&& 0x8000 = 0 then
    let n := s.modulus.length
    let r := mpSubb (d.take n) s.modulus false
    let d := r.1 ++ d.drop n
    if r.2 then d.modify s.modlen (· - 1) else d
  else d

/-- A turn of the divide loop of `smith_modmult`: `d` is the dividend from `dmpl` on. -/
def divideStep (s : SmithModulus) (d : List UInt16) : List UInt16 :=
  let q := mpQuoDigit s (d.getD s.modlen 0) (d.getD (s.modlen - 1) 0) (d.getD (s.modlen - 2) 0)
  if q > 0 then correctStep s (mpSmul q d s.modulus) else d

/-- The divide loop with `nqd` digits left, down to the lowest unit of `d`. -/
def divideLoop (s : SmithModulus) : Nat → List UInt16 → List UInt16
  | 0, d => d
  | nqd + 1, d => divideLoop s nqd (d.take nqd ++ divideStep s (d.drop nqd))

def smithModmult (s : SmithModulus) (multiplicand multiplier : List UInt16) : List UInt16 :=
  let n := multiplicand.length
  let d := mpDmul multiplicand multiplier ++ [0]
  let dmi := significance d
  if s.modlen ≤ dmi then
    let d := mpNeg (mpInc d)
    let d := divideLoop s (dmi + 1 - s.modlen) d
    mpDec (mpNeg (d.take n))
  else d.take n

/-- The loop of `mp_modexp` with `bits` bits of the exponent left. -/
def modexpLoop (s : SmithModulus) (expin exponent : List UInt16) : Nat → List UInt16 → List UInt16
  | 0, expout => expout
  | bits + 1, expout =>
    let product := smithModmult s expout expout
    modexpLoop s expin exponent bits
      (if mpTstbit exponent bits then smithModmult s product expin else product)

def mpModexp (expin exponent modulus : List UInt16) : Except Int (List UInt16) :=
  if significance exponent = 0 then
    if significance expin = 0 then .error (-1)
    else .ok ((List.replicate modulus.length 0).set 0 1)
  else if significance modulus = 0 then .error (-2)
  else if 0 ≤ mpCompare expin modulus then .error (-3)
  else if 0 ≤ mpCompare exponent modulus then .error (-4)
  else
    let n := (countbits modulus + 15) / 16
    let s := stageSmithModulus (modulus.take n)
    let expin := expin.take n
    let exponent := exponent.take n
    .ok (modexpLoop s expin exponent (countbits exponent - 1) expin ++
      List.replicate (modulus.length - n) 0)

/-- The number in a register. -/
def val (r : List UInt16) : Nat := Nat.ofDigits 65536 (r.map UInt16.toNat)

variable {r xs ys : List UInt16} {x y : UInt16} {n k : Nat}

@[simp] theorem val_nil : val [] = 0 := rfl

@[simp] theorem val_cons : val (x :: xs) = x.toNat + 65536 * val xs := by
  rw [val, List.map_cons, Nat.ofDigits_cons, val]

theorem val_append : val (xs ++ ys) = val xs + 65536 ^ xs.length * val ys := by
  rw [val, List.map_append, Nat.ofDigits_append, List.length_map, val, val]

theorem val_lt (r : List UInt16) : val r < 65536 ^ r.length := by
  have hlt := Nat.ofDigits_lt_base_pow_length (b := 65536) (l := r.map UInt16.toNat) (by decide) (by
    intro u hu
    obtain ⟨x, -, rfl⟩ := List.mem_map.mp hu
    exact x.toNat_lt)
  rwa [List.length_map] at hlt

@[simp] theorem val_replicate_zero : val (List.replicate n 0) = 0 := by
  rw [val, List.map_replicate]
  exact Nat.ofDigits_replicate_zero

theorem val_take_add_drop (n : Nat) (h : n ≤ r.length) :
    val r = val (r.take n) + 65536 ^ n * val (r.drop n) := by
  conv_lhs => rw [← List.take_append_drop n r, val_append, List.length_take, Nat.min_eq_left h]

/-- Above a number there are zeros. -/
theorem val_drop_of_lt (hn : n ≤ r.length) (h : val r < 65536 ^ n) : val (r.drop n) = 0 := by
  have hsplit := val_take_add_drop n hn
  by_contra hne
  have hle := Nat.le_mul_of_pos_right (65536 ^ n) (Nat.pos_of_ne_zero hne)
  omega

theorem val_take_of_lt (hn : n ≤ r.length) (h : val r < 65536 ^ n) : val (r.take n) = val r := by
  rw [val_take_add_drop n hn, val_drop_of_lt hn h, Nat.mul_zero, Nat.add_zero]

theorem toNat_not (x : UInt16) : (~~~x).toNat = 65535 - x.toNat := by
  simp

theorem val_not : val (r.map (~~~·)) + val r + 1 = 65536 ^ r.length := by
  induction r with
  | nil => rfl
  | cons x xs ih =>
    have hx := x.toNat_lt
    rw [List.map_cons, val_cons, val_cons, toNat_not, List.length_cons, pow_succ, ← ih]
    omega

/-! ## One unit more or less -/

theorem add_one_eq_zero_iff : x + 1 = 0 ↔ x = 0xFFFF := by
  rw [← UInt16.toNat_inj, ← UInt16.toNat_inj, UInt16.toNat_add]
  have hx := x.toNat_lt
  show (x.toNat + 1) % 65536 = 0 ↔ x.toNat = 65535
  omega

theorem sub_one_eq_iff : x - 1 = 0xFFFF ↔ x = 0 := by
  have hback : x - 1 + 1 = x := UInt16.sub_add_cancel x 1
  rw [← add_one_eq_zero_iff, hback]

theorem not_sub_one : ~~~x - 1 = ~~~(x + 1) := by
  rw [← UInt16.toNat_inj, UInt16.toNat_sub, toNat_not, toNat_not, UInt16.toNat_add]
  have hx := x.toNat_lt
  show (65536 - 1 + (65535 - x.toNat)) % 65536 = 65535 - (x.toNat + 1) % 65536
  omega

theorem not_eq_max_iff : ~~~x = 0xFFFF ↔ x = 0 := by
  rw [← UInt16.toNat_inj, ← UInt16.toNat_inj, toNat_not]
  have hx := x.toNat_lt
  show 65535 - x.toNat = 65535 ↔ x.toNat = 0
  omega

theorem mpDec_mpInc (r : List UInt16) : mpDec (mpInc r) = r := by
  induction r with
  | nil => rfl
  | cons x xs ih =>
    have hback : x + 1 - 1 = x := UInt16.add_sub_cancel x 1
    by_cases hx : x = 0xFFFF
    · have hzero : x + 1 = 0 := add_one_eq_zero_iff.mpr hx
      rw [mpInc, if_neg (not_ne_iff.mpr hzero), mpDec, hback, if_neg (not_ne_iff.mpr hx), ih]
    · have hne : x + 1 ≠ 0 := fun hzero ↦ hx (add_one_eq_zero_iff.mp hzero)
      rw [mpInc, if_pos hne, mpDec, hback, if_pos hx]

theorem mpInc_mpDec (r : List UInt16) : mpInc (mpDec r) = r := by
  induction r with
  | nil => rfl
  | cons x xs ih =>
    have hback : x - 1 + 1 = x := UInt16.sub_add_cancel x 1
    by_cases hx : x = 0
    · have hmax : x - 1 = 0xFFFF := sub_one_eq_iff.mpr hx
      rw [mpDec, if_neg (not_ne_iff.mpr hmax), mpInc, hback, if_neg (not_ne_iff.mpr hx), ih]
    · have hne : x - 1 ≠ 0xFFFF := fun hmax ↦ hx (sub_one_eq_iff.mp hmax)
      rw [mpDec, if_pos hne, mpInc, hback, if_pos hx]

theorem mpDec_not (r : List UInt16) : mpDec (r.map (~~~·)) = (mpInc r).map (~~~·) := by
  induction r with
  | nil => rfl
  | cons x xs ih =>
    rw [List.map_cons, mpDec, not_sub_one, mpInc]
    by_cases hx : x + 1 = 0
    · rw [if_neg (not_ne_iff.mpr (not_eq_max_iff.mpr hx)), if_neg (not_ne_iff.mpr hx), ih,
        List.map_cons]
    · rw [if_pos (mt not_eq_max_iff.mp hx), if_pos hx, List.map_cons]

/-- How `smith_modmult` makes the complement of a register. -/
theorem mpNeg_mpInc (r : List UInt16) : mpNeg (mpInc r) = r.map (~~~·) := by
  rw [mpNeg, mpDec_mpInc]

/-- How it takes the complement again. -/
theorem mpDec_mpNeg (r : List UInt16) : mpDec (mpNeg r) = r.map (~~~·) := by
  rw [mpNeg, mpDec_not, mpInc_mpDec]

theorem val_mpInc (h : val r + 1 < 65536 ^ r.length) : val (mpInc r) = val r + 1 := by
  induction r with
  | nil => exact absurd h (by decide)
  | cons x xs ih =>
    have hx := x.toNat_lt
    have hadd : (x + 1).toNat = (x.toNat + 1) % 65536 := UInt16.toNat_add x 1
    rw [List.length_cons, pow_succ, val_cons] at h
    by_cases hmax : x = 0xFFFF
    · have hzero : x + 1 = 0 := add_one_eq_zero_iff.mpr hmax
      have hx' : x.toNat = 65535 := by rw [hmax]; rfl
      rw [mpInc, if_neg (not_ne_iff.mpr hzero), val_cons, val_cons, ih (by omega), hadd]
      omega
    · have hne : x + 1 ≠ 0 := fun hzero ↦ hmax (add_one_eq_zero_iff.mp hzero)
      have hx' : x.toNat ≠ 65535 := fun heq ↦ hmax (UInt16.toNat_inj.mp heq)
      rw [mpInc, if_pos hne, val_cons, val_cons, hadd]
      omega

/-! ## Subtracting, comparing and shifting -/

theorem toNat_sub (x y : UInt16) : (x - y).toNat = (65536 - y.toNat + x.toNat) % 65536 :=
  UInt16.toNat_sub x y

theorem toNat_subUnit (borrow : Bool) :
    (subUnit x y borrow).1.toNat + y.toNat + borrow.toNat =
      x.toNat + 65536 * (subUnit x y borrow).2.toNat := by
  have hx := x.toNat_lt
  have hy := y.toNat_lt
  cases borrow
  · simp only [subUnit, Bool.false_eq_true, if_false, toNat_sub, Bool.toNat_false]
    by_cases hlt : x < y
    · have hlt' := UInt16.lt_iff_toNat_lt.mp hlt
      simp only [hlt, decide_true, Bool.toNat_true]
      omega
    · have hlt' := mt UInt16.lt_iff_toNat_lt.mpr hlt
      simp only [hlt, decide_false, Bool.toNat_false]
      omega
  · simp only [subUnit, if_true, toNat_sub, Bool.toNat_true, UInt16.toNat_one]
    by_cases hle : x ≤ y
    · have hle' := UInt16.le_iff_toNat_le.mp hle
      simp only [hle, decide_true, Bool.toNat_true]
      omega
    · have hle' := mt UInt16.le_iff_toNat_le.mpr hle
      simp only [hle, decide_false, Bool.toNat_false]
      omega

theorem val_mpSubb {r1 r2 : List UInt16} (borrow : Bool) (h : r1.length = r2.length) :
    val (mpSubb r1 r2 borrow).1 + val r2 + borrow.toNat =
      val r1 + 65536 ^ r1.length * (mpSubb r1 r2 borrow).2.toNat := by
  induction r1 generalizing r2 borrow with
  | nil =>
    cases r2 with
    | nil => simp [mpSubb]
    | cons y ys => cases h
  | cons x xs ih =>
    cases r2 with
    | nil => cases h
    | cons y ys =>
      have hunit := @toNat_subUnit x y borrow
      have hrest := ih (subUnit x y borrow).2 (Nat.succ.inj h)
      simp only [mpSubb, val_cons]
      rw [List.length_cons, pow_succ', Nat.mul_assoc]
      omega

@[simp] theorem length_mpSubb {r1 r2 : List UInt16} {borrow : Bool} :
    (mpSubb r1 r2 borrow).1.length = r1.length := by
  induction r1 generalizing r2 borrow with
  | nil => rfl
  | cons x xs ih =>
    cases r2 with
    | nil => rfl
    | cons y ys => rw [mpSubb, List.length_cons, ih, List.length_cons]

theorem val_mpSub {r1 r2 : List UInt16} (h : r1.length = r2.length) (hle : val r2 ≤ val r1) :
    val (mpSub r1 r2) = val r1 - val r2 := by
  have hsub := val_mpSubb false h
  have hlt := val_lt (mpSubb r1 r2 false).1
  rw [length_mpSubb] at hlt
  rw [mpSub]
  cases hb : (mpSubb r1 r2 false).2 with
  | false =>
    rw [hb, Bool.toNat_false] at hsub
    omega
  | true =>
    rw [hb, Bool.toNat_true, Bool.toNat_false] at hsub
    omega

theorem mpCompare_eq {r1 r2 : List UInt16} (h : r1.length = r2.length) :
    mpCompare r1 r2 = if val r1 < val r2 then -1 else if val r2 < val r1 then 1 else 0 := by
  induction r1 generalizing r2 with
  | nil =>
    cases r2 with
    | nil => rfl
    | cons y ys => cases h
  | cons x xs ih =>
    cases r2 with
    | nil => cases h
    | cons y ys =>
      have hx := x.toNat_lt
      have hy := y.toNat_lt
      have hxy : x < y ↔ x.toNat < y.toNat := UInt16.lt_iff_toNat_lt
      have hyx : y < x ↔ y.toNat < x.toNat := UInt16.lt_iff_toNat_lt
      rw [mpCompare, ih (Nat.succ.inj h), val_cons, val_cons]
      simp only [hxy, gt_iff_lt, hyx]
      split <;> split <;> split <;> omega

theorem mpCompare_nonneg_iff {r1 r2 : List UInt16} (h : r1.length = r2.length) :
    0 ≤ mpCompare r1 r2 ↔ val r2 ≤ val r1 := by
  rw [mpCompare_eq h]
  split
  · omega
  · split <;> omega

theorem toNat_ofNat (h : k < 16) : (UInt16.ofNat k).toNat = k := by
  rw [UInt16.toNat_ofNat']
  omega

theorem toNat_shiftLeft (x : UInt16) (h : k < 16) :
    (x <<< UInt16.ofNat k).toNat = x.toNat * 2 ^ k % 65536 := by
  rw [UInt16.toNat_shiftLeft, toNat_ofNat h, Nat.mod_eq_of_lt h, Nat.shiftLeft_eq]

theorem toNat_shiftRight (x : UInt16) (h : k < 16) :
    (x >>> UInt16.ofNat k).toNat = x.toNat / 2 ^ k := by
  rw [UInt16.toNat_shiftRight, toNat_ofNat h, Nat.mod_eq_of_lt h, Nat.shiftRight_eq_div_pow]

theorem toNat_bit (h : k < 16) : ((1 : UInt16) <<< UInt16.ofNat k).toNat = 2 ^ k := by
  have hlt : 2 ^ k < 65536 := Nat.pow_lt_pow_right (by decide) h
  rw [toNat_shiftLeft 1 h, UInt16.toNat_one, Nat.one_mul, Nat.mod_eq_of_lt hlt]

theorem val_mpRotateLeft (carry : Bool) :
    val (mpRotateLeft r carry).1 + 65536 ^ r.length * (mpRotateLeft r carry).2.toNat =
      2 * val r + carry.toNat := by
  induction r generalizing carry with
  | nil => simp [mpRotateLeft]
  | cons x xs ih =>
    have hx := x.toNat_lt
    have hunit : (x <<< 1 ||| carry.toUInt16).toNat + 65536 * (decide (0x8000 ≤ x)).toNat =
        2 * x.toNat + carry.toNat := by
      have hshift : (x <<< 1).toNat = 2 ^ 1 * (x.toNat % 32768) := by
        have hmul : (x <<< 1).toNat = x.toNat * 2 ^ 1 % 65536 := toNat_shiftLeft x (by decide)
        omega
      have hcarry : carry.toUInt16.toNat = carry.toNat := by cases carry <;> rfl
      have htop : decide (0x8000 ≤ x) = decide (32768 ≤ x.toNat) := rfl
      rw [UInt16.toNat_or, hshift, hcarry,
        ← Nat.two_pow_add_eq_or_of_lt (by cases carry <;> decide), htop]
      by_cases hge : 32768 ≤ x.toNat
      · simp only [hge, decide_true, Bool.toNat_true]
        omega
      · simp only [hge, decide_false, Bool.toNat_false]
        omega
    have hrest := ih (decide (0x8000 ≤ x))
    simp only [mpRotateLeft, val_cons]
    rw [List.length_cons, pow_succ', Nat.mul_assoc]
    omega

@[simp] theorem length_mpRotateLeft {carry : Bool} :
    (mpRotateLeft r carry).1.length = r.length := by
  induction r generalizing carry with
  | nil => rfl
  | cons x xs ih => rw [mpRotateLeft, List.length_cons, ih, List.length_cons]

theorem val_mpShiftLeft (h : 2 * val r < 65536 ^ r.length) : val (mpShiftLeft r) = 2 * val r := by
  have hrot := val_mpRotateLeft (r := r) false
  rw [mpShiftLeft]
  cases hc : (mpRotateLeft r false).2 with
  | false =>
    rw [hc, Bool.toNat_false] at hrot
    omega
  | true =>
    rw [hc, Bool.toNat_true, Bool.toNat_false] at hrot
    omega

theorem val_lowerLoop {f : UInt16 → UInt16 → UInt16 × UInt16} (hk : k ≤ 16)
    (hf : ∀ x c, c.toNat < 2 ^ k → (f x c).1.toNat = x.toNat / 2 ^ k + 2 ^ (16 - k) * c.toNat ∧
      (f x c).2.toNat = x.toNat % 2 ^ k) :
    val (lowerLoop f r).1 = val r / 2 ^ k ∧ (lowerLoop f r).2.toNat = val r % 2 ^ k := by
  induction r with
  | nil => simp [lowerLoop]
  | cons x xs ih =>
    have hpos : 0 < 2 ^ k := Nat.two_pow_pos k
    have hsplit : 65536 = 2 ^ k * 2 ^ (16 - k) := by rw [← pow_add, Nat.add_sub_cancel' hk]; rfl
    obtain ⟨hfst, hsnd⟩ := hf x (lowerLoop f xs).2 (by rw [ih.2]; exact Nat.mod_lt _ hpos)
    rw [lowerLoop, val_cons, val_cons, hfst, hsnd, ih.1, ih.2]
    have hval := Nat.div_add_mod (val xs) (2 ^ k)
    constructor
    · have hscale : 65536 * val xs = 2 ^ k * (2 ^ (16 - k) * val xs) := by
        rw [hsplit, Nat.mul_assoc]
      rw [hscale, Nat.add_mul_div_left _ _ hpos]
      have hdm : 2 ^ (16 - k) * val xs =
          65536 * (val xs / 2 ^ k) + 2 ^ (16 - k) * (val xs % 2 ^ k) := by
        conv_lhs => rw [← hval]
        rw [hsplit]
        ring
      rw [hdm]
      ring
    · rw [hsplit, Nat.mul_assoc, Nat.add_mul_mod_self_left]

theorem val_mpShiftRightBits {bits : Nat} (h : bits ≤ 16) :
    val (mpShiftRightBits r bits) = val r / 2 ^ bits := by
  unfold mpShiftRightBits
  split
  · rename_i hzero
    rw [hzero, pow_zero, Nat.div_one]
  split
  · rename_i hunit
    subst hunit
    refine (val_lowerLoop (Nat.le_refl 16) fun x c hc ↦ ⟨?_, ?_⟩).1
    · have hx := x.toNat_lt
      simp [Nat.div_eq_of_lt hx]
    · exact (Nat.mod_eq_of_lt x.toNat_lt).symm
  · rename_i hzero hunit
    refine (val_lowerLoop h fun x c hc ↦ ⟨?_, ?_⟩).1
    · have hlow : x.toNat / 2 ^ bits < 2 ^ (16 - bits) := by
        rw [Nat.div_lt_iff_lt_mul (Nat.two_pow_pos bits), ← pow_add, Nat.sub_add_cancel h]
        exact x.toNat_lt
      have hhigh : c.toNat * 2 ^ (16 - bits) < 65536 := by
        have hmul := Nat.mul_lt_mul_of_pos_right hc (Nat.two_pow_pos (16 - bits))
        rwa [← pow_add, Nat.add_sub_cancel' h] at hmul
      rw [UInt16.toNat_or, toNat_shiftRight x (by omega), toNat_shiftLeft c (by omega),
        Nat.mod_eq_of_lt hhigh, Nat.or_comm, Nat.mul_comm c.toNat,
        ← Nat.two_pow_add_eq_or_of_lt hlow, Nat.add_comm]
    · have hone : 1 ≤ 2 ^ bits := Nat.two_pow_pos bits
      have hmask : ((1 : UInt16) <<< UInt16.ofNat bits - 1).toNat = 2 ^ bits - 1 := by
        rw [toNat_sub, toNat_bit (by omega), UInt16.toNat_one]
        have hlt : 2 ^ bits < 2 ^ 16 := Nat.pow_lt_pow_right (by decide) (by omega)
        omega
      rw [UInt16.toNat_and, hmask, Nat.and_two_pow_sub_one_eq_mod]

/-! ## Bits -/

theorem testBit_val (r : List UInt16) (n : Nat) :
    (val r).testBit n = (r.getD (n / 16) 0).toNat.testBit (n % 16) := by
  induction r generalizing n with
  | nil => simp
  | cons x xs ih =>
    have hsplit : x.toNat + 65536 * val xs = 2 ^ 16 * val xs + x.toNat := by omega
    rw [val_cons, hsplit, Nat.testBit_two_pow_mul_add _ x.toNat_lt]
    by_cases hn : n < 16
    · rw [if_pos hn, Nat.div_eq_of_lt hn, Nat.mod_eq_of_lt hn, List.getD_cons_zero]
    · have hdiv : n / 16 = (n - 16) / 16 + 1 := by omega
      have hmod : n % 16 = (n - 16) % 16 := by omega
      rw [if_neg hn, ih, hdiv, hmod, List.getD_cons_succ]

theorem mpTstbit_eq (r : List UInt16) (n : Nat) : mpTstbit r n = (val r).testBit n := by
  have hmod : n % 16 < 16 := Nat.mod_lt _ (by decide)
  rw [testBit_val, mpTstbit, Bool.eq_iff_iff, decide_eq_true_iff, Ne, ← UInt16.toNat_inj,
    UInt16.toNat_and, toNat_bit hmod, Nat.and_two_pow]
  have hpos := Nat.two_pow_pos (n % 16)
  cases (r.getD (n / 16) 0).toNat.testBit (n % 16)
  · simp
  · simp

theorem val_mpSetbit (h : n < 16 * r.length) : val (mpSetbit r n) = val r ||| 2 ^ n := by
  have hlt : n / 16 < r.length := by omega
  have hmod : n % 16 < 16 := Nat.mod_lt _ (by decide)
  apply Nat.eq_of_testBit_eq
  intro j
  rw [Nat.testBit_or, testBit_val, testBit_val, mpSetbit, Nat.testBit_two_pow]
  by_cases hj : n / 16 = j / 16
  · rw [hj, List.getD_eq_getElem?_getD, List.getElem?_set_self (hj ▸ hlt), Option.getD_some,
      UInt16.toNat_or, Nat.testBit_or, toNat_bit hmod, Nat.testBit_two_pow]
    have hiff : n % 16 = j % 16 ↔ n = j := by omega
    simp only [hiff]
  · have hne : n ≠ j := fun heq ↦ hj (by rw [heq])
    rw [List.getD_eq_getElem?_getD, List.getElem?_set_ne hj, ← List.getD_eq_getElem?_getD,
      decide_eq_false hne, Bool.or_false]

@[simp] theorem length_mpSetbit : (mpSetbit r n).length = r.length := List.length_set

theorem val_lt_significance (r : List UInt16) : val r < 65536 ^ significance r := by
  induction r with
  | nil => exact Nat.one_pos
  | cons x xs ih =>
    have hx := x.toNat_lt
    rw [significance, val_cons]
    split
    · rw [pow_succ']
      omega
    · rename_i hzero
      rw [not_ne_iff.mp hzero, pow_zero] at ih
      split
      · rw [pow_one]
        omega
      · rename_i hx0
        have hzero : x.toNat = 0 := by rw [not_ne_iff.mp hx0, UInt16.toNat_zero]
        rw [pow_zero]
        omega

theorem significance_le (h : significance r ≠ 0) : 65536 ^ (significance r - 1) ≤ val r := by
  induction r with
  | nil => exact absurd rfl h
  | cons x xs ih =>
    rw [significance] at h ⊢
    rw [val_cons]
    by_cases hxs : significance xs = 0
    · rw [if_neg (not_ne_iff.mpr hxs)] at h ⊢
      have hx : x ≠ 0 := fun hx0 ↦ h (if_neg (not_ne_iff.mpr hx0))
      have hpos : x.toNat ≠ 0 := fun heq ↦ hx (UInt16.toNat_inj.mp heq)
      rw [if_pos hx, Nat.sub_self, pow_zero]
      omega
    · have hle := ih hxs
      have hpow : 65536 ^ (significance xs + 1 - 1) = 65536 * 65536 ^ (significance xs - 1) := by
        rw [← pow_succ']
        congr 1
        omega
      rw [if_pos hxs, hpow]
      omega

theorem significance_eq_zero_iff : significance r = 0 ↔ val r = 0 := by
  constructor
  · intro h
    have hlt := val_lt_significance r
    rw [h, pow_zero] at hlt
    omega
  · intro h
    by_contra hne
    have hle := significance_le hne
    have hpos : 0 < 65536 ^ (significance r - 1) := Nat.pow_pos (by decide)
    omega

theorem significance_le_iff : significance r ≤ n ↔ val r < 65536 ^ n := by
  constructor
  · intro h
    exact (val_lt_significance r).trans_le (Nat.pow_le_pow_right (by decide) h)
  · intro h
    by_contra hlt
    have hle := significance_le (r := r) (by omega)
    have hmono : 65536 ^ n ≤ 65536 ^ (significance r - 1) :=
      Nat.pow_le_pow_right (by decide) (by omega)
    omega

theorem initBitsniffer_eq (h : val r < 2 ^ n) : initBitsniffer r n = (val r).size := by
  induction n with
  | zero =>
    have hzero : val r = 0 := by omega
    rw [initBitsniffer, hzero, Nat.size_zero]
  | succ n ih =>
    rw [initBitsniffer, mpTstbit_eq]
    by_cases hbit : (val r).testBit n = true
    · rw [if_pos hbit]
      apply Nat.le_antisymm
      · exact Nat.lt_size.mpr (Nat.ge_two_pow_of_testBit hbit)
      · exact Nat.size_le.mpr h
    · rw [if_neg hbit]
      apply ih
      apply Nat.lt_pow_two_of_testBit
      intro i hi
      rcases Nat.eq_or_lt_of_le hi with rfl | hlt
      · exact Bool.not_eq_true _ ▸ hbit
      · exact Nat.testBit_lt_two_pow (h.trans_le (Nat.pow_le_pow_right (by decide) hlt))

theorem countbits_eq (r : List UInt16) : countbits r = (val r).size := by
  apply initBitsniffer_eq
  have hlt := val_lt_significance r
  rwa [show 65536 = 2 ^ 16 from rfl, ← pow_mul] at hlt

/-! ## Multiplying -/

theorem toNat_mulUnit (multiplier x y : UInt16) {carry : UInt32} (h : carry.toNat < 65536) :
    (multiplier.toUInt32 * x.toUInt32 + (y.toUInt32 + carry)).toNat =
      multiplier.toNat * x.toNat + (y.toNat + carry.toNat) := by
  have hm := multiplier.toNat_lt
  have hx := x.toNat_lt
  have hy := y.toNat_lt
  have hle : multiplier.toNat * x.toNat ≤ 65535 * 65535 := Nat.mul_le_mul (by omega) (by omega)
  rw [UInt32.toNat_add, UInt32.toNat_mul, UInt32.toNat_add, UInt16.toNat_toUInt32,
    UInt16.toNat_toUInt32, UInt16.toNat_toUInt32]
  omega

theorem val_smulLoop {q : UInt16} {prod m : List UInt16} {carry : UInt32}
    (h : m.length ≤ prod.length) (hc : carry.toNat < 65536) :
    val (smulLoop q prod m carry).1 + 65536 ^ m.length * (smulLoop q prod m carry).2.toNat =
        val (prod.take m.length) + q.toNat * val m + carry.toNat ∧
      (smulLoop q prod m carry).2.toNat < 65536 := by
  induction m generalizing prod carry with
  | nil => cases prod <;> simp [smulLoop, hc]
  | cons x m ih =>
    cases prod with
    | nil => cases h
    | cons y prod =>
      have hp := toNat_mulUnit q x y hc
      rw [smulLoop]
      set p := q.toUInt32 * x.toUInt32 + (y.toUInt32 + carry)
      have hlt := p.toNat_lt
      have hlow : p.toUInt16.toNat = p.toNat % 65536 := UInt32.toNat_toUInt16 p
      have hhigh : (p >>> 16).toNat = p.toNat / 65536 := by
        rw [UInt32.toNat_shiftRight, Nat.shiftRight_eq_div_pow]
        rfl
      have hrest := @ih prod (p >>> 16) (Nat.le_of_succ_le_succ h) (by omega)
      simp only [List.length_cons, List.take_succ_cons, val_cons, pow_succ', Nat.mul_assoc,
        Nat.mul_add, Nat.mul_left_comm q.toNat]
      refine ⟨?_, hrest.2⟩
      omega

@[simp] theorem length_smulLoop {q : UInt16} {prod m : List UInt16} {carry : UInt32} :
    (smulLoop q prod m carry).1.length = min prod.length m.length := by
  induction prod generalizing m carry with
  | nil => simp [smulLoop]
  | cons y prod ih =>
    cases m with
    | nil => rfl
    | cons x m =>
      rw [smulLoop, List.length_cons, ih, List.length_cons, List.length_cons,
        Nat.succ_min_succ]

theorem length_mpSmul {q : UInt16} {prod m : List UInt16} :
    (mpSmul q prod m).length = prod.length := by
  rw [mpSmul, List.length_append, length_smulLoop, List.length_modifyHead, List.length_drop]
  omega

/-- The units from the highest one of the product on do not change. -/
theorem mpSmul_append {q : UInt16} {prod m : List UInt16} (h : m.length < prod.length) :
    mpSmul q (prod ++ xs) m = mpSmul q prod m ++ xs := by
  have hloop (carry : UInt32) (hle : m.length ≤ prod.length) :
      smulLoop q (prod ++ xs) m carry = smulLoop q prod m carry := by
    clear h
    induction m generalizing prod carry with
    | nil => cases prod <;> cases xs <;> simp [smulLoop]
    | cons x m ih =>
      cases prod with
      | nil => cases hle
      | cons y prod =>
        rw [List.cons_append, smulLoop, smulLoop, ih _ (Nat.le_of_succ_le_succ hle)]
  have hdrop : (prod.drop m.length).length ≠ 0 := by
    rw [List.length_drop]
    omega
  rw [mpSmul, mpSmul, hloop 0 h.le, List.drop_append_of_le_length h.le, List.append_assoc]
  cases hd : prod.drop m.length with
  | nil => exact absurd (by rw [hd]; rfl) hdrop
  | cons y rest => rfl

theorem val_mpSmul {q : UInt16} {prod m : List UInt16} (h : prod.length = m.length + 1) :
    val (mpSmul q prod m) = (val prod + q.toNat * val m) % 65536 ^ prod.length := by
  obtain ⟨hval, hcarry⟩ := @val_smulLoop q prod m 0 (by omega) (by decide)
  have hlen : (smulLoop q prod m 0).1.length = m.length := by
    rw [length_smulLoop, h]
    omega
  have hlt := val_lt (smulLoop q prod m 0).1
  have hprod := val_take_add_drop (r := prod) m.length (by omega)
  rw [hlen] at hlt
  rw [mpSmul, val_append, hlen, h]
  obtain ⟨y, hy⟩ : ∃ y, prod.drop m.length = [y] :=
    List.length_eq_one_iff.mp (by rw [List.length_drop]; omega)
  rw [hy, val_cons, val_nil, Nat.mul_zero, Nat.add_zero] at hprod
  rw [hy, List.modifyHead_cons, val_cons, val_nil, Nat.mul_zero, Nat.add_zero]
  set r := smulLoop q prod m 0
  have hadd : (y + r.2.toUInt16).toNat = (y.toNat + r.2.toNat) % 65536 := by
    rw [UInt16.toNat_add, UInt32.toNat_toUInt16]
    omega
  have hsum : val prod + q.toNat * val m =
      val r.1 + 65536 ^ m.length * (y.toNat + r.2.toNat) := by
    rw [hprod, Nat.mul_add]
    have hzero : (0 : UInt32).toNat = 0 := rfl
    omega
  have hpos : 0 < 65536 ^ m.length := Nat.pow_pos (by decide)
  rw [hadd, hsum, pow_succ, Nat.mod_mul, Nat.add_mul_mod_self_left, Nat.mod_eq_of_lt hlt,
    Nat.add_mul_div_left _ _ hpos, Nat.div_eq_of_lt hlt, Nat.zero_add]

/-- A product that has room for `m` and a unit more does not wrap. -/
theorem val_mpSmul_of_lt {q : UInt16} {prod m : List UInt16} (hlen : m.length < prod.length)
    (h : val prod < 65536 ^ m.length) : val (mpSmul q prod m) = val prod + q.toNat * val m := by
  have hpow : 65536 ^ (m.length + 1) = 65536 * 65536 ^ m.length := pow_succ' _ _
  have hfit : val prod < 65536 ^ (m.length + 1) := by omega
  have hlen' : (prod.take (m.length + 1)).length = m.length + 1 := by
    rw [List.length_take, Nat.min_eq_left hlen]
  have hroom : val prod + q.toNat * val m < 65536 ^ (m.length + 1) := by
    have hq := q.toNat_lt
    have hle : q.toNat * val m ≤ 65535 * 65536 ^ m.length :=
      Nat.mul_le_mul (by omega) (val_lt m).le
    omega
  conv_lhs => rw [← List.take_append_drop (m.length + 1) prod, mpSmul_append (by omega),
    val_append, val_drop_of_lt hlen hfit, Nat.mul_zero, Nat.add_zero]
  rw [val_mpSmul hlen', hlen', val_take_of_lt hlen hfit, Nat.mod_eq_of_lt hroom]

theorem dmulLoop_spec {m multiplier prod : List UInt16}
    (hlen : m.length + multiplier.length ≤ prod.length) (h : val prod < 65536 ^ m.length) :
    (dmulLoop m multiplier prod).length = prod.length ∧
      val (dmulLoop m multiplier prod) = val prod + val m * val multiplier := by
  induction multiplier generalizing prod with
  | nil => simp [dmulLoop]
  | cons y multiplier ih =>
    rw [List.length_cons] at hlen
    have hval : val (mpSmul y prod m) = val prod + y.toNat * val m :=
      val_mpSmul_of_lt (by omega) h
    have hlen' : (mpSmul y prod m).length = prod.length := length_mpSmul
    have hsplit := val_take_add_drop (r := mpSmul y prod m) 1 (by omega)
    have hy := y.toNat_lt
    have hle : y.toNat * val m ≤ 65535 * 65536 ^ m.length :=
      Nat.mul_le_mul (by omega) (val_lt m).le
    obtain ⟨hlen'', hrest⟩ := @ih ((mpSmul y prod m).drop 1)
      (by rw [List.length_drop]; omega) (by omega)
    have hone : ((mpSmul y prod m).take 1).length = 1 := by
      rw [List.length_take]
      omega
    rw [dmulLoop, List.length_append, hlen'', hone, List.length_drop, val_append, hrest, hone,
      val_cons, Nat.mul_add (65536 ^ 1)]
    constructor
    · omega
    · rw [← Nat.add_assoc, ← hsplit, hval]
      ring

theorem val_mpDmul {multiplicand multiplier : List UInt16}
    (h : multiplicand.length = multiplier.length) :
    val (mpDmul multiplicand multiplier) = val multiplicand * val multiplier := by
  rw [mpDmul, (dmulLoop_spec _ _).2, val_replicate_zero, Nat.zero_add]
  · rw [List.length_replicate]
    omega
  · rw [val_replicate_zero]
    exact Nat.pow_pos (by decide)

theorem length_mpDmul {multiplicand multiplier : List UInt16}
    (h : multiplicand.length = multiplier.length) :
    (mpDmul multiplicand multiplier).length = 2 * multiplicand.length := by
  rw [mpDmul, (dmulLoop_spec _ _).1, List.length_replicate]
  · rw [List.length_replicate]
    omega
  · rw [val_replicate_zero]
    exact Nat.pow_pos (by decide)

end PrintServer.Nds
