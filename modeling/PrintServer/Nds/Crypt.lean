import PrintServer.Lib.Chaining
import PrintServer.Lib.Memory

/-!
# The cipher of the directory

ndscrypt.c: `nwencrypt` and `nwdecrypt` with the words of `nwcryptinit`, and the chaining of
`nwencryptblock` and `nwdecryptblock`.  ndslogin.c decrypts the replies where they lie.
-/

namespace PrintServer.Nds

open Lib

def nwcryptdata : List UInt8 :=
  [
    0xD9, 0x78, 0xF9, 0xC4, 0x19, 0xDD, 0xB5, 0xED, 0x28, 0xE9, 0xFD, 0x79, 0x4A, 0xA0, 0xD8, 0x9D,
    0xC6, 0x7E, 0x37, 0x83, 0x2B, 0x76, 0x53, 0x8E, 0x62, 0x4C, 0x64, 0x88, 0x44, 0x8B, 0xFB, 0xA2,
    0x17, 0x9A, 0x59, 0xF5, 0x87, 0xB3, 0x4F, 0x13, 0x61, 0x45, 0x6D, 0x8D, 0x09, 0x81, 0x7D, 0x32,
    0xBD, 0x8F, 0x40, 0xEB, 0x86, 0xB7, 0x7B, 0x0B, 0xF0, 0x95, 0x21, 0x22, 0x5C, 0x6B, 0x4E, 0x82,
    0x54, 0xD6, 0x65, 0x93, 0xCE, 0x60, 0xB2, 0x1C, 0x73, 0x56, 0xC0, 0x14, 0xA7, 0x8C, 0xF1, 0xDC,
    0x12, 0x75, 0xCA, 0x1F, 0x3B, 0xBE, 0xE4, 0xD1, 0x42, 0x3D, 0xD4, 0x30, 0xA3, 0x3C, 0xB6, 0x26,
    0x6F, 0xBF, 0x0E, 0xDA, 0x46, 0x69, 0x07, 0x57, 0x27, 0xF2, 0x1D, 0x9B, 0xBC, 0x94, 0x43, 0x03,
    0xF8, 0x11, 0xC7, 0xF6, 0x90, 0xEF, 0x3E, 0xE7, 0x06, 0xC3, 0xD5, 0x2F, 0xC8, 0x66, 0x1E, 0xD7,
    0x08, 0xE8, 0xEA, 0xDE, 0x80, 0x52, 0xEE, 0xF7, 0x84, 0xAA, 0x72, 0xAC, 0x35, 0x4D, 0x6A, 0x2A,
    0x96, 0x1A, 0xD2, 0x71, 0x5A, 0x15, 0x49, 0x74, 0x4B, 0x9F, 0xD0, 0x5E, 0x04, 0x18, 0xA4, 0xEC,
    0xC2, 0xE0, 0x41, 0x6E, 0x0F, 0x51, 0xCB, 0xCC, 0x24, 0x91, 0xAF, 0x50, 0xA1, 0xF4, 0x70, 0x39,
    0x99, 0x7C, 0x3A, 0x85, 0x23, 0xB8, 0xB4, 0x7A, 0xFC, 0x02, 0x36, 0x5B, 0x25, 0x55, 0x97, 0x31,
    0x2D, 0x5D, 0xFA, 0x98, 0xE3, 0x8A, 0x92, 0xAE, 0x05, 0xDF, 0x29, 0x10, 0x67, 0x6C, 0xBA, 0xC9,
    0xD3, 0x00, 0xE6, 0xCF, 0xE1, 0x9E, 0xA8, 0x2C, 0x63, 0x16, 0x01, 0x3F, 0x58, 0xE2, 0x89, 0xA9,
    0x0D, 0x38, 0x34, 0x1B, 0xAB, 0x33, 0xFF, 0xB0, 0xBB, 0x48, 0x0C, 0x5F, 0xB9, 0xB1, 0xCD, 0x2E,
    0xC5, 0xF3, 0xDB, 0x47, 0xE5, 0xA5, 0x9C, 0x77, 0x0A, 0xA6, 0x20, 0x68, 0xFE, 0x7F, 0xC1, 0xAD
  ]

def wvalLh (buf : List UInt8) (pos : Nat) : UInt16 :=
  (buf.getD pos 0).toUInt16 ||| (buf.getD (pos + 1) 0).toUInt16 <<< 8

def wsetLh (val : UInt16) : List UInt8 := [val.toUInt8, (val >>> 8).toUInt8]

def rol16 (i c : UInt16) : UInt16 := i <<< c ||| i >>> (16 - c)

def ror16 (i c : UInt16) : UInt16 := i >>> c ||| i <<< (16 - c)

def mixWord (i k x y z c : UInt16) : UInt16 := rol16 (i + k + (x &&& y) + (~~~x &&& z)) c

def unmixWord (i k x y z c : UInt16) : UInt16 := ror16 i c - (~~~x &&& z) - (x &&& y) - k

/-- The four words that `nwencrypt` and `nwdecrypt` work on. -/
structure CryptWords where
  i1 : UInt16
  i2 : UInt16
  i3 : UInt16
  i4 : UInt16
deriving DecidableEq

def CryptWords.get (buf : List UInt8) : CryptWords :=
  ⟨wvalLh buf 0, wvalLh buf 2, wvalLh buf 4, wvalLh buf 6⟩

def CryptWords.put (w : CryptWords) : List UInt8 :=
  wsetLh w.i1 ++ wsetLh w.i2 ++ wsetLh w.i3 ++ wsetLh w.i4

section Rounds

variable (cryptbuf : List UInt16)

/-- One turn of the inner loop of `nwencrypt`, which moves `p` on by four. -/
def mix (w : CryptWords) (p : Nat) : CryptWords :=
  let i1 := mixWord w.i1 (cryptbuf.getD p 0) w.i4 w.i3 w.i2 1
  let i2 := mixWord w.i2 (cryptbuf.getD (p + 1) 0) i1 w.i4 w.i3 2
  let i3 := mixWord w.i3 (cryptbuf.getD (p + 2) 0) i2 i1 w.i4 3
  let i4 := mixWord w.i4 (cryptbuf.getD (p + 3) 0) i3 i2 i1 5
  ⟨i1, i2, i3, i4⟩

/-- One turn of the inner loop of `nwdecrypt`, which leaves `p` four words lower. -/
def unmix (w : CryptWords) (p : Nat) : CryptWords :=
  let i4 := unmixWord w.i4 (cryptbuf.getD (p + 3) 0) w.i3 w.i2 w.i1 5
  let i3 := unmixWord w.i3 (cryptbuf.getD (p + 2) 0) w.i2 w.i1 i4 3
  let i2 := unmixWord w.i2 (cryptbuf.getD (p + 1) 0) w.i1 i4 i3 2
  let i1 := unmixWord w.i1 (cryptbuf.getD p 0) i4 i3 i2 1
  ⟨i1, i2, i3, i4⟩

def mash (w : CryptWords) : CryptWords :=
  let i1 := w.i1 + cryptbuf.getD (w.i4 &&& 63).toNat 0
  let i2 := w.i2 + cryptbuf.getD (i1 &&& 63).toNat 0
  let i3 := w.i3 + cryptbuf.getD (i2 &&& 63).toNat 0
  let i4 := w.i4 + cryptbuf.getD (i3 &&& 63).toNat 0
  ⟨i1, i2, i3, i4⟩

def unmash (w : CryptWords) : CryptWords :=
  let i4 := w.i4 - cryptbuf.getD (w.i3 &&& 63).toNat 0
  let i3 := w.i3 - cryptbuf.getD (w.i2 &&& 63).toNat 0
  let i2 := w.i2 - cryptbuf.getD (w.i1 &&& 63).toNat 0
  let i1 := w.i1 - cryptbuf.getD (i4 &&& 63).toNat 0
  ⟨i1, i2, i3, i4⟩

def turns (j : Nat) : Nat := if j = 2 then 6 else 5

/-- The inner loop with `i` turns left, from `p` on. -/
def mixLoop : Nat → Nat → CryptWords → CryptWords
  | 0, _, w => w
  | i + 1, p, w => mixLoop i (p + 4) (mix cryptbuf w p)

/-- The inner loop with `i` turns left, from behind `p` on. -/
def unmixLoop : Nat → Nat → CryptWords → CryptWords
  | 0, _, w => w
  | i + 1, p, w => unmixLoop i (p - 4) (unmix cryptbuf w (p - 4))

def encryptLoop : Nat → Nat → CryptWords → CryptWords
  | 0, _, w => w
  | j + 1, p, w =>
    let w := mixLoop cryptbuf (turns (j + 1)) p w
    encryptLoop j (p + 4 * turns (j + 1)) (if j + 1 > 1 then mash cryptbuf w else w)

def decryptLoop : Nat → Nat → CryptWords → CryptWords
  | 0, _, w => w
  | j + 1, p, w =>
    let w := unmixLoop cryptbuf (turns (j + 1)) p w
    decryptLoop j (p - 4 * turns (j + 1)) (if j + 1 > 1 then unmash cryptbuf w else w)

def nwencrypt (buf : List UInt8) : List UInt8 := (encryptLoop cryptbuf 3 0 (.get buf)).put

def nwdecrypt (buf : List UInt8) : List UInt8 := (decryptLoop cryptbuf 3 64 (.get buf)).put

end Rounds

/-- The first loop of `nwcryptinit`, over the octets that are there so far. -/
def expandKey : Nat → List UInt8 → List UInt8
  | 0, cryptbuf => cryptbuf
  | n + 1, cryptbuf =>
    let i := cryptbuf.length - 8
    expandKey n (cryptbuf ++
      [nwcryptdata.getD (cryptbuf.getD i 0 + cryptbuf.getD (i + 7) 0).toNat 0])

/-- The second loop of `nwcryptinit`, from the octet `i` down. -/
def reduceKey : Nat → List UInt8 → List UInt8
  | 0, cryptbuf => cryptbuf
  | i + 1, cryptbuf =>
    reduceKey i (cryptbuf.set i
      (nwcryptdata.getD (cryptbuf.getD (i + 1) 0 ^^^ cryptbuf.getD (i + 8) 0).toNat 0))

def nwcryptinit (key : List UInt8) : List UInt16 :=
  let cryptbuf := expandKey 120 (key.take 8)
  let cryptbuf := cryptbuf.set 120 (nwcryptdata.getD (cryptbuf.getD 120 0).toNat 0)
  let cryptbuf := reduceKey 120 cryptbuf
  (List.range 64).map fun i ↦ wvalLh cryptbuf (2 * i)

def xorBlock (xs ys : List UInt8) : List UInt8 := List.zipWith (· ^^^ ·) xs ys

/-- The loop of `nwencryptblock` with `n` blocks left. -/
def encryptBlocks (cryptbuf : List UInt16) :
    Nat → List UInt8 → Nat → Nat → (Nat → UInt8) → (Nat → UInt8)
  | 0, _, _, _, mem => mem
  | n + 1, nhash, buf, outbuf, mem =>
    let nhash := nwencrypt cryptbuf (xorBlock nhash (readMem mem buf 8))
    encryptBlocks cryptbuf n nhash (buf + 8) (outbuf + 8) (writeMem mem outbuf nhash)

/-- The loop of `nwdecryptblock` with `n` blocks left: `p` is the half of `nhash` that takes the
block, `q` the other one. -/
def decryptBlocks (cryptbuf : List UInt16) :
    Nat → List UInt8 → List UInt8 → Nat → Nat → (Nat → UInt8) → (Nat → UInt8)
  | 0, _, _, _, _, mem => mem
  | n + 1, _, q, buf, outbuf, mem =>
    let p := readMem mem buf 8
    let mem := writeMem mem outbuf (nwdecrypt cryptbuf (readMem mem buf 8))
    let mem := writeMem mem outbuf (xorBlock (readMem mem outbuf 8) q)
    decryptBlocks cryptbuf n q p (buf + 8) (outbuf + 8) mem

def nwencryptblock (cryptkey : List UInt8) (buf buflen outbuf : Nat) (mem : Nat → UInt8) :
    Nat → UInt8 :=
  encryptBlocks (nwcryptinit cryptkey) (buflen / 8) (List.replicate 8 0) buf outbuf mem

def nwdecryptblock (cryptkey : List UInt8) (buf buflen outbuf : Nat) (mem : Nat → UInt8) :
    Nat → UInt8 :=
  decryptBlocks (nwcryptinit cryptkey) (buflen / 8) (List.replicate 8 0) (List.replicate 8 0)
    buf outbuf mem

/-! ## One block -/

theorem ror16_rol16 (i : UInt16) {c : UInt16} (hc : 0 < c.toNat) (hlt : c.toNat < 16) :
    ror16 (rol16 i c) c = i := by
  have hback : (65536 - c.toNat) % 16 = 16 - c.toNat := by omega
  apply UInt16.eq_of_toBitVec_eq
  ext k hk
  have hout : i.toBitVec.getLsbD (16 - c.toNat + (c.toNat + k)) = false :=
    BitVec.getLsbD_of_ge _ _ (by omega)
  simp only [ror16, rol16, UInt16.toBitVec_or, UInt16.toBitVec_shiftLeft,
    UInt16.toBitVec_shiftRight]
  simp [hback, Nat.mod_eq_of_lt hlt, hout]
  by_cases hlow : c.toNat + k < 16
  · have hk' : k < 16 - c.toNat := by omega
    simp [hlow, hk', BitVec.getLsbD_eq_getElem hk]
  · -- the bits that went round
    have hk' : ¬k < 16 - c.toNat := by omega
    have hin : k - (16 - c.toNat) < c.toNat := by omega
    have hsame : 16 - c.toNat + (k - (16 - c.toNat)) = k := by omega
    simp [hlow, hk', hin, hsame, BitVec.getLsbD_eq_getElem hk]

theorem unmixWord_mixWord {i k x y z c : UInt16} (hc : 0 < c.toNat ∧ c.toNat < 16) :
    unmixWord (mixWord i k x y z c) k x y z c = i := by
  rw [unmixWord, mixWord, ror16_rol16 _ hc.1 hc.2]
  simp only [UInt16.add_sub_cancel]

section Rounds

variable (cryptbuf : List UInt16)

theorem unmix_mix (w : CryptWords) (p : Nat) : unmix cryptbuf (mix cryptbuf w p) p = w := by
  have h1 : 0 < (1 : UInt16).toNat ∧ (1 : UInt16).toNat < 16 := by decide
  have h2 : 0 < (2 : UInt16).toNat ∧ (2 : UInt16).toNat < 16 := by decide
  have h3 : 0 < (3 : UInt16).toNat ∧ (3 : UInt16).toNat < 16 := by decide
  have h5 : 0 < (5 : UInt16).toNat ∧ (5 : UInt16).toNat < 16 := by decide
  simp only [unmix, mix, unmixWord_mixWord h1, unmixWord_mixWord h2, unmixWord_mixWord h3,
    unmixWord_mixWord h5]

theorem unmash_mash (w : CryptWords) : unmash cryptbuf (mash cryptbuf w) = w := by
  simp only [unmash, mash, UInt16.add_sub_cancel]

theorem mixLoop_eq (n p : Nat) (w : CryptWords) :
    mixLoop cryptbuf n p w = (List.range' p n 4).foldl (mix cryptbuf) w := by
  induction n generalizing p w with
  | zero => rfl
  | succ n ih => rw [mixLoop, ih, List.range'_succ, List.foldl_cons]

theorem unmixLoop_eq (n p : Nat) (w : CryptWords) :
    unmixLoop cryptbuf n (p + 4 * n) w =
      (List.range' p n 4).foldr (fun a s ↦ unmix cryptbuf s a) w := by
  induction n generalizing w with
  | zero => rfl
  | succ n ih =>
    have hp : p + 4 * (n + 1) - 4 = p + 4 * n := by omega
    rw [unmixLoop, hp, ih, List.range'_concat, List.foldr_append, List.foldr_cons, List.foldr_nil]

theorem unmixLoop_mixLoop (n p : Nat) (w : CryptWords) :
    unmixLoop cryptbuf n (p + 4 * n) (mixLoop cryptbuf n p w) = w := by
  rw [unmixLoop_eq, mixLoop_eq]
  exact foldr_undo_foldl (unmix_mix cryptbuf) w _

theorem decryptLoop_encryptLoop (w : CryptWords) :
    decryptLoop cryptbuf 3 64 (encryptLoop cryptbuf 3 0 w) = w := by
  have henc : encryptLoop cryptbuf 3 0 w = mixLoop cryptbuf 5 44 (mash cryptbuf
      (mixLoop cryptbuf 6 20 (mash cryptbuf (mixLoop cryptbuf 5 0 w)))) := by
    simp [encryptLoop, turns]
  have hdec (v : CryptWords) : decryptLoop cryptbuf 3 64 v = unmixLoop cryptbuf 5 20
      (unmash cryptbuf (unmixLoop cryptbuf 6 44 (unmash cryptbuf
        (unmixLoop cryptbuf 5 64 v)))) := by
    simp [decryptLoop, turns]
  rw [henc, hdec, unmixLoop_mixLoop cryptbuf 5 44, unmash_mash, unmixLoop_mixLoop cryptbuf 6 20,
    unmash_mash, unmixLoop_mixLoop cryptbuf 5 0]

end Rounds

theorem wvalLh_wsetLh (val : UInt16) :
    val.toUInt8.toUInt16 ||| (val >>> 8).toUInt8.toUInt16 <<< 8 = val := by
  apply UInt16.eq_of_toBitVec_eq
  ext k hk
  simp only [UInt16.toBitVec_or, UInt8.toBitVec_toUInt16, UInt16.toBitVec_toUInt8,
    UInt16.toBitVec_shiftLeft, UInt16.toBitVec_shiftRight]
  by_cases h8 : k < 8
  · simp [h8, BitVec.getElem_setWidth, BitVec.getLsbD_eq_getElem hk]
  · have hin : k - 8 < 8 := by omega
    have hsame : 8 + (k - 8) = k := by omega
    simp [h8, hin, hsame, BitVec.getElem_setWidth, BitVec.getLsbD_eq_getElem hk]

theorem wsetLh_wvalLh (x y : UInt8) : wsetLh (x.toUInt16 ||| y.toUInt16 <<< 8) = [x, y] := by
  have hlow : (x.toUInt16 ||| y.toUInt16 <<< 8).toUInt8 = x := by
    apply UInt8.eq_of_toBitVec_eq
    ext k hk
    simp [UInt16.toBitVec_toUInt8]
  have hhigh : ((x.toUInt16 ||| y.toUInt16 <<< 8) >>> 8).toUInt8 = y := by
    apply UInt8.eq_of_toBitVec_eq
    ext k hk
    have h16 : 8 + k < 16 ∧ k < 16 := by omega
    simp [h16, BitVec.getLsbD_eq_getElem hk]
  rw [wsetLh, hlow, hhigh]

theorem CryptWords.get_put (w : CryptWords) : get w.put = w := by
  simp only [get, put, wvalLh, wsetLh, List.cons_append, List.nil_append, List.getD_cons_zero,
    List.getD_cons_succ, wvalLh_wsetLh]

theorem CryptWords.put_get {b : List UInt8} (hb : b.length = 8) : (get b).put = b := by
  match b, hb with
  | [b0, b1, b2, b3, b4, b5, b6, b7], _ =>
    simp only [get, put, wvalLh, List.getD_cons_zero, List.getD_cons_succ, wsetLh_wvalLh,
      List.cons_append, List.nil_append]

@[simp] theorem CryptWords.length_put (w : CryptWords) : w.put.length = 8 := rfl

theorem nwdecrypt_nwencrypt (cryptbuf : List UInt16) {b : List UInt8} (hb : b.length = 8) :
    nwdecrypt cryptbuf (nwencrypt cryptbuf b) = b := by
  rw [nwdecrypt, nwencrypt, CryptWords.get_put, decryptLoop_encryptLoop, CryptWords.put_get hb]

/-! ## Chained blocks in memory -/

theorem xorBlock_cancel {xs ys : List UInt8} (h : xs.length = ys.length) :
    xorBlock (xorBlock xs ys) xs = ys := by
  induction xs generalizing ys with
  | nil => exact (List.length_eq_zero_iff.mp h.symm).symm
  | cons x xs ih =>
    cases ys with
    | nil => cases h
    | cons y ys =>
      have hxor : x ^^^ y ^^^ x = y := by rw [UInt8.xor_comm x y, UInt8.xor_assoc, UInt8.xor_self,
        UInt8.xor_zero]
      have hih := ih (Nat.succ.inj h)
      simp only [xorBlock, List.zipWith_cons_cons] at hih ⊢
      rw [hxor, hih]

theorem chainable (cryptbuf : List UInt16) :
    Chainable xorBlock (nwencrypt cryptbuf) (nwdecrypt cryptbuf) (·.length = 8) where
  mixed hx hy := by simp [xorBlock, hx, hy]
  encoded _ := rfl
  unmixed hx hy := xorBlock_cancel (hx.trans hy.symm)
  decoded hx := nwdecrypt_nwencrypt cryptbuf hx

def blocksAt (mem : Nat → UInt8) : Nat → Nat → List (List UInt8)
  | _, 0 => []
  | a, n + 1 => readMem mem a 8 :: blocksAt mem (a + 8) n

variable {cryptbuf : List UInt16} {mem mem' : Nat → UInt8} {a n buf outbuf : Nat}
  {p q nhash : List UInt8}

theorem blocksAt_congr (h : ∀ i, a ≤ i → i < a + 8 * n → mem i = mem' i) :
    blocksAt mem a n = blocksAt mem' a n := by
  induction n generalizing a with
  | zero => rfl
  | succ n ih =>
    have hhead : readMem mem a 8 = readMem mem' a 8 :=
      readMem_congr fun i hle hlt ↦ h i hle (by omega)
    rw [blocksAt, blocksAt, hhead, ih fun i hle hlt ↦ h i (by omega) (by omega)]

@[simp] theorem length_blocksAt : (blocksAt mem a n).length = n := by
  induction n generalizing a with
  | zero => rfl
  | succ n ih => rw [blocksAt, List.length_cons, ih]

theorem length_of_mem_blocksAt {b : List UInt8} (hb : b ∈ blocksAt mem a n) : b.length = 8 := by
  induction n generalizing a with
  | zero => cases hb
  | succ n ih =>
    cases hb with
    | head => exact length_readMem
    | tail _ hb => exact ih hb

theorem flatten_blocksAt : (blocksAt mem a n).flatten = readMem mem a (8 * n) := by
  induction n generalizing a with
  | zero => rfl
  | succ n ih =>
    have hn : 8 * (n + 1) = 8 + 8 * n := by omega
    rw [blocksAt, List.flatten_cons, ih, hn, readMem_add]

theorem blocksAt_writeMem {bs : List (List UInt8)} (hbs : ∀ b ∈ bs, b.length = 8) :
    blocksAt (writeMem mem a bs.flatten) a bs.length = bs := by
  induction bs generalizing a mem with
  | nil => rfl
  | cons b bs ih =>
    have hb : b.length = 8 := hbs b List.mem_cons_self
    have hhead : readMem (writeMem mem a (b ++ bs.flatten)) a 8 = b := by
      rw [readMem_writeMem_take (by rw [List.length_append]; omega), List.take_left' hb]
    have htail : writeMem mem a (b ++ bs.flatten) =
        writeMem (writeMem mem a b) (a + 8) bs.flatten := by
      rw [← writeMem_append, hb]
    rw [List.length_cons, blocksAt, List.flatten_cons, hhead, htail,
      ih fun b hb ↦ hbs b (List.mem_cons_of_mem _ hb)]

/-- The destination is where the source is, in front of it, or behind it. -/
def Copyable (buf outbuf n : Nat) : Prop := outbuf ≤ buf ∨ buf + n ≤ outbuf

instance : Decidable (Copyable buf outbuf n) := inferInstanceAs (Decidable (_ ∨ _))

theorem Copyable.next (h : Copyable buf outbuf (8 * (n + 1))) :
    Copyable (buf + 8) (outbuf + 8) (8 * n) := by
  unfold Copyable at *
  omega

theorem Copyable.blocksAt_writeMem {c : List UInt8} (hc : c.length = 8)
    (h : Copyable buf outbuf (8 * (n + 1))) :
    blocksAt (writeMem mem outbuf c) (buf + 8) n = blocksAt mem (buf + 8) n := by
  apply blocksAt_congr
  intro i hle hlt
  rcases h with h | h
  · exact writeMem_of_ge (by omega)
  · exact writeMem_of_lt (by omega)

theorem encryptBlocks_eq (h : Copyable buf outbuf (8 * n)) :
    encryptBlocks cryptbuf n nhash buf outbuf mem = writeMem mem outbuf
      (chain xorBlock (nwencrypt cryptbuf) nhash (blocksAt mem buf n)).flatten := by
  induction n generalizing nhash buf outbuf mem with
  | zero => exact writeMem_nil.symm
  | succ n ih =>
    rw [encryptBlocks, ih h.next, h.blocksAt_writeMem rfl, blocksAt, chain, List.flatten_cons]
    exact writeMem_append _ _

theorem decryptBlocks_eq (h : Copyable buf outbuf (8 * n)) (hq : q.length = 8) :
    decryptBlocks cryptbuf n p q buf outbuf mem = writeMem mem outbuf
      (unchain xorBlock (nwdecrypt cryptbuf) q (blocksAt mem buf n)).flatten := by
  induction n generalizing p q buf outbuf mem with
  | zero => exact writeMem_nil.symm
  | succ n ih =>
    have hlen : (xorBlock (nwdecrypt cryptbuf (readMem mem buf 8)) q).length = 8 := by
      simp [xorBlock, nwdecrypt, hq]
    have hread : readMem (writeMem mem outbuf (nwdecrypt cryptbuf (readMem mem buf 8))) outbuf 8 =
        nwdecrypt cryptbuf (readMem mem buf 8) := readMem_writeMem
    have hover (ys : List UInt8) (hys : ys.length = 8) :
        writeMem (writeMem mem outbuf (nwdecrypt cryptbuf (readMem mem buf 8))) outbuf ys =
          writeMem mem outbuf ys :=
      writeMem_writeMem (Nat.le_of_eq (by rw [hys]; rfl))
    simp only [decryptBlocks]
    rw [hread, hover _ hlen, ih h.next length_readMem, h.blocksAt_writeMem hlen, blocksAt, unchain,
      List.flatten_cons, ← writeMem_append, hlen]

/-- What `nwencryptblock` made of a text gives the text back, decrypted where it lies or elsewhere,
and no other byte is written. -/
theorem nwdecryptblock_nwencryptblock (cryptkey : List UInt8) (mem : Nat → UInt8)
    {buf outbuf dst len : Nat} (henc : Copyable buf outbuf len) (hdec : Copyable outbuf dst len) :
    nwdecryptblock cryptkey outbuf len dst (nwencryptblock cryptkey buf len outbuf mem) =
      writeMem (nwencryptblock cryptkey buf len outbuf mem) dst
        (readMem mem buf (8 * (len / 8))) := by
  have henc' : Copyable buf outbuf (8 * (len / 8)) := by unfold Copyable at *; omega
  have hdec' : Copyable outbuf dst (8 * (len / 8)) := by unfold Copyable at *; omega
  have hzero : (List.replicate 8 (0 : UInt8)).length = 8 := rfl
  have hblocks (b : List UInt8) (hb : b ∈ blocksAt mem buf (len / 8)) : b.length = 8 :=
    length_of_mem_blocksAt hb
  have hcodes := (chainable (nwcryptinit cryptkey)).of_mem_chain hzero hblocks
  have hback := (chainable (nwcryptinit cryptkey)).unchain_chain hzero hblocks
  rw [nwdecryptblock, decryptBlocks_eq hdec' hzero, nwencryptblock, encryptBlocks_eq henc']
  -- the blocks that are decrypted are those that were written
  have hread := @blocksAt_writeMem mem outbuf _ hcodes
  rw [length_chain, length_blocksAt] at hread
  rw [hread, hback, flatten_blocksAt]

/-- A reply of two blocks, decrypted where it lies. -/
theorem nwdecryptblock_in_place :
    let reply := nwencryptblock (List.replicate 8 7) 0 16 100 fun i ↦ i.toUInt8
    nwdecryptblock (List.replicate 8 7) 100 16 100 reply =
      writeMem reply 100 (readMem (fun i ↦ i.toUInt8) 0 16) :=
  nwdecryptblock_nwencryptblock _ _ (by decide) (by decide)

end PrintServer.Nds
