import Mathlib.Data.Nat.Digits.Defs
import Mathlib.Data.Nat.Bitwise
import PrintServer.Lib.OnesComplement

/-!
# The checksum of UDP and TCP

inet.c adds the words of a segment as the processor reads them, the low byte first, over the chain
of pbufs that holds it.  What comes out is the number that the bytes spell in base 256, modulo
65535, however the segment is cut into pbufs.
-/

namespace PrintServer.Tcpip

open Lib

def htons (x : UInt16) : UInt16 :=
  (x >>> (8 : UInt16)) &&& 0xff ||| (x <<< (8 : UInt16)) &&& 0xff00

/-- The loop of `lwip_chksum` and the odd byte behind it. -/
def lwipChksumLoop : List UInt8 → UInt32 → UInt32
  | b0 :: b1 :: data, acc =>
    lwipChksumLoop data (acc + (b0.toUInt32 ||| b1.toUInt32 <<< (8 : UInt32)))
  | [b], acc => acc + (htons (b.toUInt16 <<< (8 : UInt16))).toUInt32
  | [], acc => acc

def lwipChksum (data : List UInt8) : UInt16 :=
  let acc := lwipChksumLoop data 0
  let acc := acc >>> (16 : UInt32) + (acc &&& 0xffff)
  let acc := if acc &&& 0xffff0000 ≠ 0 then acc >>> (16 : UInt32) + (acc &&& 0xffff) else acc
  acc.toUInt16

/-- `while (acc >> 16)`, with fuel that `acc` itself provides. -/
def carryLoop : Nat → UInt32 → UInt32
  | 0, acc => acc
  | n + 1, acc =>
    if acc >>> (16 : UInt32) ≠ 0 then carryLoop n ((acc &&& 0xffff) + acc >>> (16 : UInt32))
    else acc

def addCarries (acc : UInt32) : UInt32 := carryLoop acc.toNat acc

def swapBytes (acc : UInt32) : UInt32 :=
  (acc &&& 0xff) <<< (8 : UInt32) ||| (acc &&& 0xff00) >>> (8 : UInt32)

/-- The loop of `inet_chksum_pseudo` over the chain, with `acc` and `swapped`. -/
def chainLoop : List (List UInt8) → UInt32 → Bool → UInt32 × Bool
  | [], acc, swapped => (acc, swapped)
  | q :: p, acc, swapped =>
    let acc := addCarries (acc + (lwipChksum q).toUInt32)
    if q.length % 2 ≠ 0 then chainLoop p (swapBytes acc) (!swapped)
    else chainLoop p acc swapped

/-- `inet_chksum_pseudo`, with the payloads of the chain. -/
def inetChksumPseudo (p : List (List UInt8)) (src dest : UInt32) (proto : UInt8)
    (protoLen : UInt16) : UInt16 :=
  let r := chainLoop p 0 false
  let acc := if r.2 then swapBytes r.1 else r.1
  let acc := acc + (src &&& 0xffff)
  let acc := acc + ((src >>> (16 : UInt32)) &&& 0xffff)
  let acc := acc + (dest &&& 0xffff)
  let acc := acc + ((dest >>> (16 : UInt32)) &&& 0xffff)
  let acc := acc + (htons proto.toUInt16).toUInt32
  let acc := acc + (htons protoLen).toUInt32
  (~~~(addCarries acc &&& 0xffff)).toUInt16

/-! ## What the sums are -/

/-- The number that bytes spell, the lowest first. -/
def spelled (data : List UInt8) : Nat := Nat.ofDigits 256 (data.map UInt8.toNat)

variable {data p q : List UInt8} {acc : UInt32} {b : UInt8}

@[simp] theorem spelled_nil : spelled [] = 0 := rfl

@[simp] theorem spelled_cons : spelled (b :: data) = b.toNat + 256 * spelled data := by
  rw [spelled, List.map_cons, Nat.ofDigits_cons, spelled]

theorem spelled_append : spelled (p ++ q) = spelled p + 256 ^ p.length * spelled q := by
  rw [spelled, List.map_append, Nat.ofDigits_append, List.length_map, spelled, spelled]

theorem toNat_carry (acc : UInt32) :
    ((acc &&& 0xffff) + acc >>> (16 : UInt32)).toNat = acc.toNat % 65536 + acc.toNat / 65536 := by
  have hlt := acc.toNat_lt
  have hlow : (acc &&& 0xffff).toNat = acc.toNat % 65536 := by
    rw [UInt32.toNat_and]
    exact Nat.and_two_pow_sub_one_eq_mod acc.toNat 16
  have hhigh : (acc >>> (16 : UInt32)).toNat = acc.toNat / 65536 := by
    rw [UInt32.toNat_shiftRight, Nat.shiftRight_eq_div_pow]
    rfl
  rw [UInt32.toNat_add, hlow, hhigh]
  omega

/-- Both ways of exchanging the bytes of a word, on its number. -/
theorem swap_eq {x : Nat} (h : x < 65536) :
    (x &&& 0xff) <<< 8 ||| (x &&& 0xff00) >>> 8 = x % 256 * 256 + x / 256 := by
  have hlow : x &&& 0xff = x % 256 := Nat.and_two_pow_sub_one_eq_mod x 8
  have hhigh : (x &&& 0xff00) >>> 8 = x / 256 := by
    have hmask : (0xff00 : Nat) >>> 8 = 2 ^ 8 - 1 := rfl
    rw [Nat.shiftRight_and_distrib, hmask, Nat.and_two_pow_sub_one_eq_mod,
      Nat.shiftRight_eq_div_pow]
    omega
  have hdiv : x / 256 < 2 ^ 8 := by omega
  rw [hlow, hhigh, Nat.shiftLeft_eq, Nat.mul_comm (x % 256),
    ← Nat.two_pow_add_eq_or_of_lt hdiv]

theorem toNat_swapBytes (h : acc.toNat < 65536) :
    (swapBytes acc).toNat = acc.toNat % 256 * 256 + acc.toNat / 256 := by
  have hlow : (acc &&& 0xff).toNat = acc.toNat &&& 0xff := UInt32.toNat_and ..
  have hmask : acc.toNat &&& 0xff ≤ 0xff := Nat.and_le_right
  have hshift : ((acc &&& 0xff) <<< (8 : UInt32)).toNat = (acc.toNat &&& 0xff) <<< 8 := by
    rw [UInt32.toNat_shiftLeft, hlow, Nat.shiftLeft_eq]
    show (acc.toNat &&& 0xff) * 2 ^ 8 % 2 ^ 32 = _
    rw [Nat.shiftLeft_eq, Nat.mod_eq_of_lt (by omega)]
  rw [← swap_eq h, swapBytes, UInt32.toNat_or, hshift, UInt32.toNat_shiftRight,
    UInt32.toNat_and]
  rfl

/-- The odd byte is added in the place of a low byte. -/
theorem toNat_oddByte (b : UInt8) : (htons (b.toUInt16 <<< (8 : UInt16))).toNat = b.toNat := by
  have hb := b.toNat_lt
  have hx : (b.toUInt16 <<< (8 : UInt16)).toNat = b.toNat * 256 := by
    rw [UInt16.toNat_shiftLeft, Nat.shiftLeft_eq, UInt8.toNat_toUInt16]
    show b.toNat * 2 ^ 8 % 2 ^ 16 = b.toNat * 256
    omega
  generalize b.toUInt16 <<< (8 : UInt16) = x at hx ⊢
  have hlow : (x >>> (8 : UInt16) &&& 0xff).toNat = b.toNat := by
    rw [UInt16.toNat_and, UInt16.toNat_shiftRight, Nat.shiftRight_eq_div_pow, hx]
    show b.toNat * 256 / 2 ^ 8 &&& 2 ^ 8 - 1 = b.toNat
    rw [Nat.and_two_pow_sub_one_eq_mod]
    omega
  have hhigh : (x <<< (8 : UInt16) &&& 0xff00).toNat = 0 := by
    have hzero : (x <<< (8 : UInt16)).toNat = 0 := by
      rw [UInt16.toNat_shiftLeft, Nat.shiftLeft_eq, hx]
      show b.toNat * 256 * 2 ^ 8 % 2 ^ 16 = 0
      omega
    rw [UInt16.toNat_and, hzero, Nat.zero_and]
  rw [htons, UInt16.toNat_or, hlow, hhigh, Nat.or_zero]

/-- The words of the data as they are read. -/
def wordSum : List UInt8 → Nat
  | b0 :: b1 :: data => b0.toNat + 256 * b1.toNat + wordSum data
  | [b] => b.toNat
  | [] => 0

theorem wordSum_le : ∀ data : List UInt8, 2 * wordSum data ≤ 65535 * (data.length + 1)
  | b0 :: b1 :: data => by
    have h0 := b0.toNat_lt
    have h1 := b1.toNat_lt
    have hrest := wordSum_le data
    rw [wordSum, List.length_cons, List.length_cons]
    omega
  | [b] => by
    have hb := b.toNat_lt
    rw [wordSum, List.length_singleton]
    omega
  | [] => Nat.zero_le _

theorem sameSum_wordSum : ∀ data : List UInt8, SameSum (wordSum data) (spelled data)
  | b0 :: b1 :: data => by
    have hrest := (sameSum_wordSum data).trans (SameSum.pow_even 1 _).symm
    have hsum := (SameSum.refl (b0.toNat + 256 * b1.toNat)).add hrest
    rw [wordSum, spelled_cons, spelled_cons]
    have hassoc : b0.toNat + 256 * (b1.toNat + 256 * spelled data) =
        b0.toNat + 256 * b1.toNat + 256 ^ (2 * 1) * spelled data := by ring
    rw [hassoc]
    exact hsum
  | [b] => SameSum.refl _
  | [] => SameSum.refl _

theorem toNat_word (b0 b1 : UInt8) :
    (b0.toUInt32 ||| b1.toUInt32 <<< (8 : UInt32)).toNat = b0.toNat + 256 * b1.toNat := by
  have h0 := b0.toNat_lt
  have h1 := b1.toNat_lt
  have hhigh : (b1.toUInt32 <<< (8 : UInt32)).toNat = 2 ^ 8 * b1.toNat := by
    rw [UInt32.toNat_shiftLeft, Nat.shiftLeft_eq, UInt8.toNat_toUInt32]
    show b1.toNat * 2 ^ 8 % 2 ^ 32 = 2 ^ 8 * b1.toNat
    omega
  rw [UInt32.toNat_or, hhigh, UInt8.toNat_toUInt32, Nat.or_comm,
    ← Nat.two_pow_add_eq_or_of_lt h0]
  omega

theorem toNat_lwipChksumLoop : ∀ (data : List UInt8) (acc : UInt32),
    acc.toNat + wordSum data < 2 ^ 32 →
      (lwipChksumLoop data acc).toNat = acc.toNat + wordSum data
  | b0 :: b1 :: data, acc, h => by
    rw [wordSum] at h ⊢
    have hadd : (acc + (b0.toUInt32 ||| b1.toUInt32 <<< (8 : UInt32))).toNat =
        acc.toNat + (b0.toNat + 256 * b1.toNat) := by
      rw [UInt32.toNat_add, toNat_word, Nat.mod_eq_of_lt (by omega)]
    rw [lwipChksumLoop, toNat_lwipChksumLoop data _ (by omega), hadd]
    omega
  | [b], acc, h => by
    rw [wordSum] at h ⊢
    rw [lwipChksumLoop, UInt32.toNat_add, UInt16.toNat_toUInt32, toNat_oddByte,
      Nat.mod_eq_of_lt h]
  | [], _, _ => rfl

theorem lt_of_high_eq_zero (h : acc &&& 0xffff0000 = 0) : acc.toNat < 65536 := by
  have hlt := acc.toNat_lt
  have hand : (acc.toNat &&& 0xffff0000) >>> 16 = 0 := by
    rw [← UInt32.toNat_inj, UInt32.toNat_and] at h
    exact congrArg (· >>> 16) h
  have hmask : (0xffff0000 : Nat) >>> 16 = 2 ^ 16 - 1 := rfl
  rw [Nat.shiftRight_and_distrib, hmask, Nat.and_two_pow_sub_one_eq_mod,
    Nat.shiftRight_eq_div_pow] at hand
  omega

theorem sameSum_lwipChksum (h : data.length < 65536) :
    SameSum (lwipChksum data).toNat (spelled data) := by
  have hzero : (0 : UInt32).toNat = 0 := rfl
  have hle := wordSum_le data
  have hsum := toNat_lwipChksumLoop data 0 (by omega)
  rw [hzero, Nat.zero_add] at hsum
  refine SameSum.trans ?_ (sameSum_wordSum data)
  unfold lwipChksum
  simp only [UInt32.add_comm (_ >>> _)]
  generalize lwipChksumLoop data 0 = acc at hsum
  have hfirst := toNat_carry acc
  generalize (acc &&& 0xffff) + acc >>> (16 : UInt32) = acc₁ at hfirst
  have hsame : SameSum acc₁.toNat (wordSum data) := by
    rw [hfirst, hsum]
    exact SameSum.carry _
  split
  · have hsecond := toNat_carry acc₁
    rw [UInt32.toNat_toUInt16, hsecond, Nat.mod_eq_of_lt (by omega)]
    exact (SameSum.carry _).trans hsame
  · rename_i hhigh
    rw [UInt32.toNat_toUInt16, Nat.mod_eq_of_lt (lt_of_high_eq_zero (not_ne_iff.mp hhigh))]
    exact hsame

/-- Each turn makes the number smaller, so that the fuel lasts. -/
theorem carryLoop_spec (n : Nat) (h : acc.toNat ≤ n) :
    SameSum (carryLoop n acc).toNat acc.toNat ∧ (carryLoop n acc).toNat < 65536 := by
  induction n generalizing acc with
  | zero =>
    have hzero : acc.toNat = 0 := Nat.le_zero.mp h
    exact ⟨SameSum.refl _, by rw [carryLoop, hzero]; decide⟩
  | succ n ih =>
    have hdiv : (acc >>> (16 : UInt32)).toNat = acc.toNat / 65536 := by
      rw [UInt32.toNat_shiftRight, Nat.shiftRight_eq_div_pow]
      rfl
    rw [carryLoop]
    split
    · rename_i hhigh
      have hne : (acc >>> (16 : UInt32)).toNat ≠ 0 :=
        fun hzero ↦ hhigh (UInt32.toNat_inj.mp hzero)
      have hcarry := toNat_carry acc
      have hle : ((acc &&& 0xffff) + acc >>> (16 : UInt32)).toNat ≤ n := by omega
      obtain ⟨hsame, hlt⟩ := ih hle
      rw [hcarry] at hsame
      exact ⟨hsame.trans (SameSum.carry _), hlt⟩
    · rename_i hhigh
      have hzero : (acc >>> (16 : UInt32)).toNat = 0 :=
        congrArg UInt32.toNat (not_ne_iff.mp hhigh)
      exact ⟨SameSum.refl _, by omega⟩

theorem addCarries_spec (acc : UInt32) :
    SameSum (addCarries acc).toNat acc.toNat ∧ (addCarries acc).toNat < 65536 :=
  carryLoop_spec acc.toNat (Nat.le_refl _)

/-! ## The chain -/

/-- The sum over the bytes `f` in the middle of the chain: the bytes are exchanged as often as a
pbuf of odd length went by. -/
structure Summed (f : List UInt8) (acc : UInt32) (swapped : Bool) : Prop where
  sum : SameSum acc.toNat (256 ^ f.length * spelled f)
  lt : acc.toNat < 65536
  odd : swapped = decide (f.length % 2 = 1)

theorem Summed.step {f q : List UInt8} {swapped : Bool} (h : Summed f acc swapped)
    (hq : q.length < 65536) :
    SameSum (addCarries (acc + (lwipChksum q).toUInt32)).toNat
      (256 ^ f.length * spelled f + spelled q) := by
  have hchk := (lwipChksum q).toNat_lt
  have hlt := h.lt
  refine (addCarries_spec _).1.trans ?_
  rw [UInt32.toNat_add, UInt16.toNat_toUInt32, Nat.mod_eq_of_lt (by omega)]
  exact h.sum.add (sameSum_lwipChksum hq)

/-- What the next pbuf makes of the number. -/
theorem sameSum_next (f q : List UInt8) :
    SameSum (256 ^ q.length * (256 ^ f.length * spelled f + spelled q))
      (256 ^ (f ++ q).length * spelled (f ++ q)) := by
  have hsplit : 256 ^ (f ++ q).length * spelled (f ++ q) =
      256 ^ q.length * (256 ^ f.length * spelled f) +
        256 ^ (2 * f.length) * (256 ^ q.length * spelled q) := by
    rw [spelled_append, List.length_append]
    ring
  rw [hsplit, Nat.mul_add]
  exact (SameSum.refl _).add (SameSum.pow_even _ _).symm

theorem sameSum_pow {x s k : Nat} (h : SameSum x s) :
    SameSum (if k % 2 = 1 then 256 * x else x) (256 ^ k * s) := by
  have hk := Nat.div_add_mod k 2
  split
  · rename_i hodd
    have hpow : 256 ^ k * s = 256 ^ (2 * (k / 2)) * (256 * s) := by
      rw [← Nat.mul_assoc, ← pow_succ]
      congr 2
      omega
    rw [hpow]
    exact (h.mul_left 256).trans (SameSum.pow_even _ _).symm
  · have hpow : 256 ^ k * s = 256 ^ (2 * (k / 2)) * s := by
      congr 2
      omega
    rw [hpow]
    exact h.trans (SameSum.pow_even _ _).symm

theorem summed_chainLoop {p : List (List UInt8)} {f : List UInt8} {swapped : Bool}
    (h : Summed f acc swapped) (hp : ∀ q ∈ p, q.length < 65536) :
    Summed (f ++ p.flatten) (chainLoop p acc swapped).1 (chainLoop p acc swapped).2 := by
  induction p generalizing f acc swapped with
  | nil => simpa [chainLoop] using h
  | cons q p ih =>
    have hq := hp q List.mem_cons_self
    have hstep := h.step hq
    have hlt := (addCarries_spec (acc + (lwipChksum q).toUInt32)).2
    rw [chainLoop, List.flatten_cons, ← List.append_assoc]
    generalize addCarries (acc + (lwipChksum q).toUInt32) = acc' at hstep hlt
    have hpow := sameSum_pow (k := q.length) hstep
    split
    · rename_i hodd
      have hone : q.length % 2 = 1 := by omega
      rw [if_pos hone] at hpow
      apply ih _ fun r hr ↦ hp r (List.mem_cons_of_mem _ hr)
      refine ⟨?_, ?_, ?_⟩
      · rw [toNat_swapBytes hlt]
        exact (SameSum.swap (Nat.lt_succ_iff.mp hlt)).trans (hpow.trans (sameSum_next f q))
      · rw [toNat_swapBytes hlt]
        omega
      · rw [h.odd, List.length_append, ← decide_not]
        congr 1
        rw [eq_iff_iff]
        omega
    · rename_i heven
      have hzero : ¬ q.length % 2 = 1 := by omega
      rw [if_neg hzero] at hpow
      apply ih _ fun r hr ↦ hp r (List.mem_cons_of_mem _ hr)
      refine ⟨hpow.trans (sameSum_next f q), hlt, ?_⟩
      rw [h.odd, List.length_append]
      congr 1
      rw [eq_iff_iff]
      omega

/-! ## A segment and its checksum -/

variable {chain chain' : List (List UInt8)} {src dest : UInt32} {proto : UInt8}
  {protoLen : UInt16}

/-- The words of the pseudo header. -/
def pseudoSum (src dest : UInt32) (proto : UInt8) (protoLen : UInt16) : Nat :=
  src.toNat % 65536 + src.toNat / 65536 + (dest.toNat % 65536 + dest.toNat / 65536) +
    ((htons proto.toUInt16).toNat + (htons protoLen).toNat)

theorem length_lt_of_flatten (h : chain.flatten.length < 65536) :
    ∀ q ∈ chain, q.length < 65536 := by
  intro q hq
  exact (List.sublist_flatten_of_mem hq).length_le.trans_lt h

/-- The sum over the whole chain, with the bytes in their places. -/
theorem sameSum_chain (h : chain.flatten.length < 65536) :
    let r := chainLoop chain 0 false
    SameSum (if r.2 then swapBytes r.1 else r.1).toNat (spelled chain.flatten) ∧
      (if r.2 then swapBytes r.1 else r.1).toNat < 65536 := by
  have hstart : Summed [] 0 false := ⟨SameSum.refl 0, by decide, rfl⟩
  obtain ⟨hsum, hlt, hodd⟩ := summed_chainLoop hstart (length_lt_of_flatten h)
  rw [List.nil_append] at hsum hodd
  have hpow := (sameSum_pow (k := chain.flatten.length) hsum).trans
    (by rw [← Nat.mul_assoc, ← pow_add, ← Nat.two_mul]; exact SameSum.pow_even _ _)
  simp only [hodd, decide_eq_true_eq]
  split
  · rename_i hone
    rw [if_pos hone] at hpow
    rw [toNat_swapBytes hlt]
    exact ⟨(SameSum.swap (Nat.lt_succ_iff.mp hlt)).trans hpow, by omega⟩
  · rename_i hone
    rw [if_neg hone] at hpow
    exact ⟨hpow, hlt⟩

theorem toNat_low (x : UInt32) : (x &&& 0xffff).toNat = x.toNat % 65536 := by
  rw [UInt32.toNat_and]
  exact Nat.and_two_pow_sub_one_eq_mod x.toNat 16

theorem toNat_high (x : UInt32) : (x >>> (16 : UInt32) &&& 0xffff).toNat = x.toNat / 65536 := by
  have hlt := x.toNat_lt
  have hdiv : x.toNat / 65536 < 65536 := by omega
  rw [toNat_low, UInt32.toNat_shiftRight, Nat.shiftRight_eq_div_pow]
  exact Nat.mod_eq_of_lt hdiv

/-- The checksum is the complement of the number of the segment and its pseudo header. -/
theorem sameSum_inetChksumPseudo (src dest : UInt32) (proto : UInt8) (protoLen : UInt16)
    (h : chain.flatten.length < 65536) :
    SameSum (65535 - (inetChksumPseudo chain src dest proto protoLen).toNat)
      (spelled chain.flatten + pseudoSum src dest proto protoLen) := by
  obtain ⟨hsum, hlt⟩ := sameSum_chain h
  unfold inetChksumPseudo
  simp only []
  generalize (if (chainLoop chain 0 false).2 = true then swapBytes (chainLoop chain 0 false).1
    else (chainLoop chain 0 false).1) = acc at hsum hlt ⊢
  have hs := src.toNat_lt
  have hd := dest.toNat_lt
  have hproto := (htons proto.toUInt16).toNat_lt
  have hlen := (htons protoLen).toNat_lt
  have htotal : (acc + (src &&& 0xffff) + (src >>> (16 : UInt32) &&& 0xffff) + (dest &&& 0xffff) +
      (dest >>> (16 : UInt32) &&& 0xffff) + (htons proto.toUInt16).toUInt32 +
      (htons protoLen).toUInt32).toNat = acc.toNat + pseudoSum src dest proto protoLen := by
    simp only [UInt32.toNat_add, toNat_low src, toNat_high src, toNat_low dest, toNat_high dest,
      UInt16.toNat_toUInt32, pseudoSum]
    omega
  generalize acc + (src &&& 0xffff) + (src >>> (16 : UInt32) &&& 0xffff) + (dest &&& 0xffff) +
    (dest >>> (16 : UInt32) &&& 0xffff) + (htons proto.toUInt16).toUInt32 +
    (htons protoLen).toUInt32 = total at htotal
  obtain ⟨hcarries, hfit⟩ := addCarries_spec total
  have hresult : (~~~(addCarries total &&& 0xffff)).toUInt16.toNat =
      65535 - (addCarries total).toNat := by
    rw [UInt32.toNat_toUInt16, UInt32.toNat_not, toNat_low]
    show (2 ^ 32 - 1 - (addCarries total).toNat % 65536) % 65536 = _
    omega
  have hback : 65535 - (65535 - (addCarries total).toNat) = (addCarries total).toNat := by omega
  rw [hresult, hback]
  rw [htotal] at hcarries
  exact hcarries.trans (hsum.add (SameSum.refl _))

/-- The receiver accepts what adds up to a multiple of 65535 that is not zero. -/
theorem inetChksumPseudo_eq_zero_iff (h : chain.flatten.length < 65536) :
    inetChksumPseudo chain src dest proto protoLen = 0 ↔
      SameSum 65535 (spelled chain.flatten + pseudoSum src dest proto protoLen) := by
  have hsum := sameSum_inetChksumPseudo src dest proto protoLen h
  have hlt := (inetChksumPseudo chain src dest proto protoLen).toNat_lt
  constructor
  · intro hzero
    rw [hzero] at hsum
    exact hsum
  · intro hmax
    have hnum := (hsum.trans hmax.symm).eq (Nat.sub_le _ _) (Nat.le_refl _)
    rw [← UInt16.toNat_inj]
    show _ = 0
    omega

/-! ## From the sender to the receiver -/

/-- A word as it lies in the header. -/
def wordBytes (w : UInt16) : List UInt8 := [w.toUInt8, (w >>> (8 : UInt16)).toUInt8]

/-- The checksum that `udp_send` stores: zero means that there is none. -/
def udpChksum (q : List (List UInt8)) (src dest : UInt32) (proto : UInt8) (totLen : UInt16) :
    UInt16 :=
  let chksum := inetChksumPseudo q src dest proto totLen
  if chksum = 0 then 0xffff else chksum

theorem spelled_wordBytes (w : UInt16) : spelled (wordBytes w) = w.toNat := by
  have hw := w.toNat_lt
  have hlow : w.toUInt8.toNat = w.toNat % 256 := UInt16.toNat_toUInt8 w
  have hhigh : (w >>> (8 : UInt16)).toUInt8.toNat = w.toNat / 256 := by
    rw [UInt16.toNat_toUInt8, UInt16.toNat_shiftRight, Nat.shiftRight_eq_div_pow]
    show w.toNat / 2 ^ 8 % 2 ^ 8 = w.toNat / 256
    omega
  rw [wordBytes, spelled_cons, spelled_cons, spelled_nil, hlow, hhigh]
  omega

/-- A word at an even offset counts as itself. -/
theorem sameSum_word {header : List UInt8} (heven : header.length % 2 = 0) (w : UInt16)
    (rest : List UInt8) :
    SameSum (spelled (header ++ wordBytes w ++ rest))
      (spelled (header ++ wordBytes 0 ++ rest) + w.toNat) := by
  have hlen (v : UInt16) : (header ++ wordBytes v).length = header.length + 2 := by
    rw [List.length_append]
    rfl
  have hpow : 256 ^ header.length = 256 ^ (2 * (header.length / 2)) := by
    congr 1
    omega
  have hzero : (0 : UInt16).toNat = 0 := rfl
  have hword := (SameSum.refl (spelled (header ++ wordBytes 0 ++ rest))).add
    (SameSum.pow_even (header.length / 2) w.toNat)
  have heq : spelled (header ++ wordBytes w ++ rest) =
      spelled (header ++ wordBytes 0 ++ rest) + 256 ^ (2 * (header.length / 2)) * w.toNat := by
    rw [spelled_append, spelled_append, spelled_append, spelled_append, hlen, hlen,
      spelled_wordBytes, spelled_wordBytes, hzero, ← hpow]
    ring
  rw [heq]
  exact hword

/-- Cut into pbufs in any way, a segment is accepted with the checksum that its sender made of
its own chain, be it that of TCP or that of UDP. -/
theorem inetChksumPseudo_sent {header rest : List UInt8} (heven : header.length % 2 = 0)
    (hlen : (header ++ wordBytes 0 ++ rest).length < 65536)
    (hq : chain.flatten = header ++ wordBytes 0 ++ rest) :
    (∀ p : List (List UInt8),
        p.flatten = header ++ wordBytes (inetChksumPseudo chain src dest proto protoLen) ++ rest →
        inetChksumPseudo p src dest proto protoLen = 0) ∧
      ∀ p : List (List UInt8),
        p.flatten = header ++ wordBytes (udpChksum chain src dest proto protoLen) ++ rest →
        inetChksumPseudo p src dest proto protoLen = 0 := by
  have hsum := sameSum_inetChksumPseudo src dest proto protoLen (hq ▸ hlen)
  rw [hq] at hsum
  -- a word that completes the sum to 65535 or to twice that is accepted
  have haccepted (w : UInt16) (hw : SameSum 65535
      (65535 - (inetChksumPseudo chain src dest proto protoLen).toNat + w.toNat))
      (p : List (List UInt8)) (hp : p.flatten = header ++ wordBytes w ++ rest) :
      inetChksumPseudo p src dest proto protoLen = 0 := by
    have hplen : p.flatten.length < 65536 := by
      rw [hp]
      simpa [wordBytes] using hlen
    rw [inetChksumPseudo_eq_zero_iff hplen, hp]
    have hword := (sameSum_word heven w rest).add
      (SameSum.refl (pseudoSum src dest proto protoLen))
    rw [Nat.add_right_comm] at hword
    exact hw.trans ((hsum.add (SameSum.refl _)).trans hword.symm)
  have hlt := (inetChksumPseudo chain src dest proto protoLen).toNat_lt
  constructor
  · apply haccepted
    rw [Nat.sub_add_cancel (by omega)]
    exact SameSum.refl _
  · apply haccepted
    unfold udpChksum
    simp only []
    split
    · rename_i hzero
      rw [hzero]
      exact ⟨rfl, by decide⟩
    · rw [Nat.sub_add_cancel (by omega)]
      exact SameSum.refl _

/-- A datagram of one byte behind its header of two pbufs. -/
theorem inetChksumPseudo_sent_byte :
    let chain := [[48, 57, 2], [53, 0, 9, 0, 0], [65]]
    (∀ p : List (List UInt8),
        p.flatten = [48, 57, 2, 53, 0, 9] ++ wordBytes (inetChksumPseudo chain 1 2 17 9) ++ [65] →
        inetChksumPseudo p 1 2 17 9 = 0) ∧
      ∀ p : List (List UInt8),
        p.flatten = [48, 57, 2, 53, 0, 9] ++ wordBytes (udpChksum chain 1 2 17 9) ++ [65] →
        inetChksumPseudo p 1 2 17 9 = 0 :=
  inetChksumPseudo_sent (by decide) (by decide) rfl

/-- Of two segments that differ in one word, one is refused, but for the two zeros of the sum. -/
theorem word_eq_of_accepted {header rest : List UInt8} {w w' : UInt16}
    (heven : header.length % 2 = 0) (hlen : (header ++ wordBytes w ++ rest).length < 65536)
    (hp : chain.flatten = header ++ wordBytes w ++ rest)
    (hp' : chain'.flatten = header ++ wordBytes w' ++ rest)
    (hok : inetChksumPseudo chain src dest proto protoLen = 0)
    (hok' : inetChksumPseudo chain' src dest proto protoLen = 0) :
    w = w' ∨ w = 0 ∧ w' = 0xffff ∨ w = 0xffff ∧ w' = 0 := by
  have hlen' : (header ++ wordBytes w' ++ rest).length < 65536 := by
    simpa [wordBytes] using hlen
  rw [inetChksumPseudo_eq_zero_iff (hp ▸ hlen), hp] at hok
  rw [inetChksumPseudo_eq_zero_iff (hp' ▸ hlen'), hp'] at hok'
  have hword := (sameSum_word heven w rest).add
    (SameSum.refl (pseudoSum src dest proto protoLen))
  have hword' := (sameSum_word heven w' rest).add
    (SameSum.refl (pseudoSum src dest proto protoLen))
  obtain ⟨hmod, -⟩ := hword.symm.trans (hok.symm.trans (hok'.trans hword'))
  change _ % 65535 = _ % 65535 at hmod
  have hw := w.toNat_lt
  have hw' := w'.toNat_lt
  rw [← UInt16.toNat_inj, ← UInt16.toNat_inj, ← UInt16.toNat_inj, ← UInt16.toNat_inj,
    ← UInt16.toNat_inj]
  show w.toNat = w'.toNat ∨ w.toNat = 0 ∧ w'.toNat = 65535 ∨ w.toNat = 65535 ∧ w'.toNat = 0
  omega

/-- The two zeros. -/
theorem word_eq_of_accepted_zeros :
    (0 : UInt16) = 0xffff ∨ (0 : UInt16) = 0 ∧ (0xffff : UInt16) = 0xffff ∨
      (0 : UInt16) = 0xffff ∧ (0xffff : UInt16) = 0 :=
  @word_eq_of_accepted [[0xff], [0xee, 0], [0]] [[0xff, 0xee], [0xff, 0xff]] 0 0 17 0
    [0xff, 0xee] [] 0 0xffff (by decide) (by decide) rfl rfl
    ((inetChksumPseudo_eq_zero_iff (by decide)).mpr ⟨by decide, by decide⟩)
    ((inetChksumPseudo_eq_zero_iff (by decide)).mpr ⟨by decide, by decide⟩)

end PrintServer.Tcpip
