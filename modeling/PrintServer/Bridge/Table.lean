import PrintServer.Atalk.Aarp
import PrintServer.Lib.Machine

/-!
# The bridge table

bridge.c: `bridge_in` learns on which interface a station is, `bridge_dst_lookup` finds the
interface for a frame.  The statistics and `used` are written only and left out.
-/

namespace PrintServer.Bridge

open Lib Aarp

def hashSize : Nat := 2048

def bridgeRelocation : UInt16 := 3

/-- `struct netif`: `netif_add` gives each its own `dev`. -/
structure Netif where
  dev : Nat
  hwaddr : HwAddr
deriving DecidableEq

/-- `struct ether` -/
structure Ether where
  dest : HwAddr
  source : HwAddr
deriving DecidableEq

/-- `struct hash_table` -/
structure HashTable where
  name : Option Netif
  etheraddr : HwAddr
  loops : UInt16
deriving DecidableEq

/-- What `bridge_in` and `bridge_dst_lookup` return. -/
inductive Dst
  | bdgBcast
  | bdgMcast
  | bdgLocal
  | bdgDrop
  | bdgUnknown
  | netif (ifp : Netif)
deriving DecidableEq

/-- `flags` are those of `ifp2sc`, by `dev`. -/
structure Bdg where
  bdgTable : Nat → HashTable
  flags : Nat → UInt32
  bdgAddresses : List HwAddr

def zotGet16 (x y : UInt8) : UInt32 := x.toUInt32 <<< 8 ||| y.toUInt32

def zotGet32 (x y z w : UInt8) : UInt32 := zotGet16 x y <<< 16 ||| zotGet16 z w

def bdgMatch (a b : HwAddr) : Bool :=
  zotGet16 (a.getD 4 0) (a.getD 5 0) = zotGet16 (b.getD 4 0) (b.getD 5 0) ∧
    zotGet32 (a.getD 0 0) (a.getD 1 0) (a.getD 2 0) (a.getD 3 0) =
      zotGet32 (b.getD 0 0) (b.getD 1 0) (b.getD 2 0) (b.getD 3 0)

def isEtherBroadcast (a : HwAddr) : Bool :=
  zotGet32 (a.getD 0 0) (a.getD 1 0) (a.getD 2 0) (a.getD 3 0) = 0xFFFFFFFF ∧
    zotGet16 (a.getD 4 0) (a.getD 5 0) = 0xFFFF

/-- A `short` of the address, on a little-endian machine. -/
def addrShort (x y : UInt8) : UInt16 := y.toUInt16 <<< 8 ||| x.toUInt16

/-- `HASH_FN` -/
def hashFn (a : HwAddr) : Nat :=
  (ntohs (addrShort (a.getD 2 0) (a.getD 3 0) ^^^ addrShort (a.getD 4 0) (a.getD 5 0)) &&&
    UInt16.ofNat (hashSize - 1)).toNat

def iffMute : UInt32 := 2

/-- `MUTED` -/
def Bdg.muted (b : Bdg) (ifp : Netif) : Bool := b.flags ifp.dev &&& iffMute ≠ 0

def bdginit (netifList : List Netif) : Bdg :=
  { bdgTable := fun _ ↦ ⟨none, Vector.replicate 6 0, 0⟩
    flags := fun _ ↦ 0
    bdgAddresses := netifList.map Netif.hwaddr }

def bridgeDstLookup (b : Bdg) (eh : Ether) : Dst :=
  if isEtherBroadcast eh.dest then .bdgBcast
  else if eh.dest.getD 0 0 &&& 1 ≠ 0 then .bdgMcast
  else if b.bdgAddresses.any (bdgMatch · eh.dest) then .bdgLocal
  else
    let e := b.bdgTable (hashFn eh.dest)
    match e.name with
    | some dst => if bdgMatch e.etheraddr eh.dest then .netif dst else .bdgUnknown
    | none => .bdgUnknown

/-- What a frame from `source` makes of the slot of its address, and `dropit`, which is the early
return if it is `none`. -/
def learn (e : HashTable) (muted : Bool) (ifp : Netif) (source : HwAddr) :
    HashTable × Option Bool :=
  let taken : HashTable := { name := some ifp, etheraddr := source, loops := 0 }
  match e.name with
  | some old =>
      if ¬ bdgMatch source e.etheraddr then (taken, some muted)
      else if old ≠ ifp then
        let loops := e.loops + 1
        if loops ≤ bridgeRelocation then ({ e with loops := loops }, none)
        else ({ e with loops := loops, name := some ifp }, some true)
      else ({ e with loops := 0 }, some muted)
  | none => (taken, some muted)

/-- The end of `bridge_in`. -/
def forward (b : Bdg) (ifp : Netif) (eh : Ether) (dropit : Bool) : Dst :=
  let dst := bridgeDstLookup b eh
  if dropit then
    if dst = .bdgBcast ∨ dst = .bdgMcast ∨ dst = .bdgLocal then .bdgLocal else .bdgDrop
  else if dst = .netif ifp then .bdgDrop
  else dst

def bridgeIn (b : Bdg) (ifp : Netif) (eh : Ether) : Dst × Bdg :=
  let i := hashFn eh.source
  let r := learn (b.bdgTable i) (b.muted ifp) ifp eh.source
  let b := { b with bdgTable := Function.update b.bdgTable i r.1 }
  match r.2 with
  | none => (.bdgDrop, b)
  | some dropit => (forward b ifp eh dropit, b)

/-- A frame and the interface that it arrives on. -/
structure Frame where
  ifp : Netif
  eh : Ether
deriving DecidableEq

def bridge (netifList : List Netif) : Machine Bdg Frame :=
  { init := bdginit netifList, step := fun b f ↦ some (bridgeIn b f.ifp f.eh).2 }

/-! ## The property -/

/-- The frame leaves its source recorded on the interface that it arrived on. -/
def Records (b : Bdg) (f : Frame) : Prop :=
  let e := (bridgeIn b f.ifp f.eh).2.bdgTable (hashFn f.eh.source)
  e.name = some f.ifp ∧ e.etheraddr = f.eh.source

instance (b : Bdg) (f : Frame) : Decidable (Records b f) :=
  inferInstanceAs (Decidable (_ ∧ _))

/-- The addresses that frames record from a state on, with their interfaces. -/
def recorded : Bdg → List Frame → List (HwAddr × Netif)
  | _, [] => []
  | b, f :: fs =>
      (if Records b f then [(f.eh.source, f.ifp)] else []) ++
        recorded (bridgeIn b f.ifp f.eh).2 fs

/-- The last record of an address. -/
def LastRecorded (log : List (HwAddr × Netif)) (a : HwAddr) (ifp : Netif) : Prop :=
  ∃ before after, log = before ++ (a, ifp) :: after ∧ ∀ r ∈ after, r.1 ≠ a

/-- An entry comes from a frame, a lookup goes by the last record of an address, no frame goes
back where it came from, and a station all of whose frames arrive on one interface is recorded
there before more than `BRIDGE_RELOCATION` of them are dropped. -/
structure LearningSound (netifList : List Netif) (fs : List Frame) (b : Bdg) : Prop where
  learned : ∀ i ifp, (b.bdgTable i).name = some ifp →
    ∃ f ∈ fs, f.eh.source = (b.bdgTable i).etheraddr ∧ f.ifp = ifp
  lookup : ∀ eh ifp, bridgeDstLookup b eh = .netif ifp →
    LastRecorded (recorded (bdginit netifList) fs) eh.dest ifp
  notBack : ∀ ifp eh, (bridgeIn b ifp eh).1 ≠ .netif ifp
  relocates : ∀ before after b₀, fs = before ++ after →
    (bridge netifList).run before = some b₀ → ∀ a ifp,
    (∀ f ∈ after, f.eh.source = a → f.ifp = ifp) → (∀ r ∈ recorded b₀ after, r.1 ≠ a) →
    (after.filter (·.eh.source = a)).length ≤ bridgeRelocation.toNat

/-- The frame does not find its source on another interface with `loops` at its limit, from where
it wraps. -/
def LoopsFit (b : Bdg) (f : Frame) : Prop :=
  let e := b.bdgTable (hashFn f.eh.source)
  e.name ≠ none → e.name ≠ some f.ifp → e.etheraddr = f.eh.source → e.loops.toNat < 65535

instance (b : Bdg) (f : Frame) : Decidable (LoopsFit b f) :=
  inferInstanceAs (Decidable (_ → _))

end PrintServer.Bridge
