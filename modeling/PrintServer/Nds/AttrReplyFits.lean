import PrintServer.Nds.AttrReply

/-!
# Replies that are parsed inside

`AttrReply.Fits` says of the octets of a reply alone, by their offsets, that the function never
leaves it; a reply that it turns down in time fits too.
-/

namespace PrintServer.Nds

open Lib
open Novell (TmpQInfo numOfPrnPort)

namespace AttrReply

variable (r : AttrReply)

/-- The number at an offset. -/
def dword (off : Nat) : Nat := r.dwordAt (r.buf + off)

/-- The item with its length at `off` ends in the reply. -/
def ItemAt (off : Nat) : Prop := off + 4 + r.dword off ≤ r.outlen

/-- The name at `off` ends in the reply. -/
def NameAt (off : Nat) : Prop :=
  ∃ k, off + 2 * k + 2 ≤ r.outlen ∧ r.mem (r.buf + off + 2 * k) = 0 ∧
    r.mem (r.buf + off + 2 * k + 1) = 0

/-- Where the item behind the one at `off` is looked for. -/
def next (off : Nat) : Nat := off + 4 + roundUp (r.dword off)

/-- `n` more items are to come, and the length at `off` leads past the end of the reply but not of
the address space. -/
def TurnedDown (n off : Nat) : Prop :=
  n ≠ 0 ∧ r.outlen < r.next off ∧ r.buf + r.next off < 2 ^ 32

/-- The name of an item is passed on: that of each queue, and of a printer for a port. -/
def Used (off : Nat) : Prop := r.objectName = .printer → r.dword (off + 4) < numOfPrnPort

/-- `n` items from `off` on. -/
def ItemsFit : Nat → Nat → Prop
  | 0, _ => True
  | n + 1, off =>
      off + 4 ≤ r.outlen ∧ (r.objectName = .printer → off + 8 ≤ r.outlen) ∧
        (r.TurnedDown n off ∨
          r.ItemAt off ∧ (r.Used off → r.NameAt (off + 16)) ∧ ItemsFit n (r.next off))

/-- The name of the host server is behind its length. -/
def HostFits (off : Nat) : Prop :=
  off + 4 ≤ r.outlen ∧ r.ItemAt off ∧ r.NameAt (off + 4)

/-- An address of another length than 12 is turned down. -/
def AddressFits (off : Nat) : Prop :=
  off + 12 ≤ r.outlen ∧ (r.dword (off + 8) = 12 → off + 24 ≤ r.outlen ∧ r.ItemAt off)

/-- Where the number of entries is looked for. -/
def entries : Nat := pointer (r.buf + 20 + roundUp (r.dword 16))

/-- The head of the reply, and with `rest` what is behind it. -/
def HeadFits (syntaxID : Nat) (narrow : Int → Int) (rest : Nat → Nat → Prop) : Prop :=
  8 ≤ r.outlen ∧ (r.dword 4 = 1 → 12 ≤ r.outlen ∧ (0 < toInt32 (r.dword 8) →
    16 ≤ r.outlen ∧ (r.dword 12 = syntaxID → 20 ≤ r.outlen ∧ r.Inside r.entries 4 ∧
      (0 < narrow (toInt32 (r.dwordAt r.entries)) →
        rest (narrow (toInt32 (r.dwordAt r.entries))).toNat (r.entries + 4 - r.buf)))))

/-- The reply is well formed, or turned down by a number that is in it. -/
def Fits : Prop :=
  match r.objectName with
  | .printer => r.HeadFits 25 toInt16 r.ItemsFit
  | .queue => r.HeadFits 25 toInt16 fun n ↦ r.ItemsFit (min n maxNdsQueuePerPrn)
  | .hostServer => r.HeadFits 1 id fun _ ↦ r.HostFits
  | .networkAddress => r.HeadFits 12 id fun _ ↦ r.AddressFits

/-! ## Pointers and offsets -/

variable {r} {off n p : Nat}

theorem bufend_lt : r.bufend < 2 ^ 32 := by
  have hlt := r.buf_lt
  have hle := r.outlen_le
  rw [bufend]
  omega

theorem pointer_of_le (h : p ≤ r.bufend) : pointer p = p :=
  Nat.mod_eq_of_lt (Nat.lt_of_le_of_lt h bufend_lt)

theorem inside_iff : r.Inside (r.buf + off) n ↔ off + n ≤ r.outlen := by
  rw [Inside, bufend]
  omega

theorem stays_item_iff : r.Stays (.item (r.buf + off)) ↔ r.ItemAt off := by
  show r.Inside (r.buf + off) (4 + r.dwordAt (r.buf + off)) ↔ _
  rw [inside_iff, ItemAt, dword, Nat.add_assoc]

theorem stays_name_iff : r.Stays (.name (r.buf + off)) ↔ r.NameAt off := by
  show (∃ k, r.Inside (r.buf + off) (2 * k + 2) ∧ _) ↔ ∃ k, _
  refine exists_congr fun k ↦ ?_
  rw [inside_iff, Nat.add_assoc off]

/-- The pointer behind what has been read inside. -/
theorem pointer_behind (h : off + n ≤ r.outlen) :
    pointer (r.buf + off + n) = r.buf + (off + n) := by
  rw [Nat.add_assoc]
  apply pointer_of_le (r := r)
  rw [bufend]
  omega

theorem roundUp_le (len : Nat) : roundUp len ≤ 2 ^ 32 - 4 := by
  rw [roundUp]
  omega

/-- The pointer behind an item is tested as the reply is. -/
theorem bufend_lt_next_iff (h : off + 4 ≤ r.outlen) :
    r.bufend < pointer (r.buf + (off + 4) + roundUp (r.dword off)) ↔
      r.outlen < r.next off ∧ r.buf + r.next off < 2 ^ 32 := by
  have hround := roundUp_le (r.dword off)
  have hend := r.bufend_lt
  have hassoc : r.buf + (off + 4) + roundUp (r.dword off) = r.buf + r.next off := by
    rw [next]
    omega
  rw [hassoc, pointer]
  by_cases hwrap : r.buf + r.next off < 2 ^ 32
  · rw [Nat.mod_eq_of_lt hwrap, bufend]
    omega
  · -- the sum passes the end of the address space once and comes back before the item's end
    have hback : (r.buf + r.next off) % 2 ^ 32 = r.buf + r.next off - 2 ^ 32 := by
      rw [next, bufend] at *
      omega
    rw [hback]
    rw [next, bufend] at *
    omega

/-- An item that ends in the reply and is not turned down leads on inside, or was the last. -/
theorem pointer_next (h : r.next off ≤ r.outlen) :
    pointer (r.buf + (off + 4) + roundUp (r.dword off)) = r.buf + r.next off := by
  have hassoc : r.buf + (off + 4) + roundUp (r.dword off) = r.buf + r.next off := by
    rw [next]
    omega
  rw [hassoc]
  apply pointer_of_le (r := r)
  rw [bufend]
  omega

end AttrReply

end PrintServer.Nds
