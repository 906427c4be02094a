import Mathlib.Algebra.GroupWithZero.Nat
import PrintServer.Usb.DeviceIdContained

/-!
# The device id of a printer

The strings of a `struct parport` that the utility is sent, as `parse_device_id` leaves them behind
`usbprn_attach`.
-/

namespace PrintServer.Nt

open Http (Str cstr)
open Usb (Field Parsing Strings claims parseDeviceId parseDeviceId_eq partClaim pieces)

def lengthOfDeviceID : Nat := 1024

def isprint (c : UInt8) : Bool := 0x20 ≤ c ∧ c ≤ 0x7e

/-- Strings of a `struct parport`; `none` is NULL. -/
structure DeviceInfo where
  manufacture : Option Str
  model : Option Str
  commandSet : Option Str

namespace DeviceInfo

def empty : DeviceInfo := ⟨none, none, none⟩

def strlen (text : Option Str) : Nat := (text.getD []).length

def total (d : DeviceInfo) : Nat := strlen d.manufacture + strlen d.model + strlen d.commandSet

/-- The string that a field points to. -/
def text (s : Strings) (f : Field) : Option Str := (s.field f).map fun n ↦ (s.block n).text

/-- The strings that a parse has stored. -/
def ofStrings (s : Strings) : DeviceInfo :=
  ⟨text s .manufacture, text s .model, text s .commandSet⟩

/-! ## The strings are parts of the id -/

variable {heap : Nat → Bool} {wait : Nat} {s t : Strings} {f : Field} {value : Str}

theorem total_ofStrings_empty : (ofStrings .empty).total = 0 := rfl

/-- A branch sets its own field, to its value or to NULL. -/
theorem text_storeValue (hs : ∀ g n, s.field g = some n → n < s.calls)
    (h : s.storeValue heap wait f value = some t) :
    (∀ g n, t.field g = some n → n < t.calls) ∧ (text t f = none ∨ text t f = some value) ∧
      ∀ g, g ≠ f → text t g = text s g := by
  rcases Strings.storeValue_cases h with hmiss | ⟨size, n, hstores⟩
  · have hother : ∀ g, g ≠ f → t.field g = s.field g := by
      intro g hg
      rw [hmiss.field, Function.update_of_ne hg]
    have hown : t.field f = none := by rw [hmiss.field, Function.update_self]
    refine ⟨fun g m hm ↦ ?_, .inl (by rw [text, hown]; rfl), fun g hg ↦ ?_⟩
    · by_cases hg : g = f
      · rw [hg, hown] at hm
        contradiction
      · exact Nat.lt_of_lt_of_le (hs g m (hother g hg ▸ hm)) hmiss.calls
    · rw [text, text, hother g hg, hmiss.block]
  · have hother : ∀ g, g ≠ f → t.field g = s.field g := by
      intro g hg
      rw [hstores.field, Function.update_of_ne hg]
    have hown : t.field f = some n := by rw [hstores.field, Function.update_self]
    refine ⟨fun g m hm ↦ ?_, .inr ?_, fun g hg ↦ ?_⟩
    · rw [hstores.calls]
      by_cases hg : g = f
      · rw [hg, hown] at hm
        obtain rfl := Option.some.inj hm
        exact Nat.lt_succ_self _
      · have hlt := hs g m (hother g hg ▸ hm)
        have hfresh := hstores.fresh
        omega
    · rw [text, hown, Option.map_some, hstores.block]
    · rw [text, text, hother g hg]
      cases hm : s.field g with
      | none => rfl
      | some m =>
          have hlt := hs g m hm
          have hfresh := hstores.fresh
          rw [Option.map_some, Option.map_some, hstores.same m (by omega)]

theorem total_storeValue (hs : ∀ g n, s.field g = some n → n < s.calls)
    (h : s.storeValue heap wait f value = some t) :
    (ofStrings t).total ≤ (ofStrings s).total + value.length := by
  obtain ⟨-, hown, hother⟩ := text_storeValue hs h
  have hlength : strlen (text t f) ≤ value.length := by
    rcases hown with hnone | hsome
    · rw [hnone]
      exact Nat.zero_le _
    · rw [hsome]
      exact Nat.le_refl _
  simp only [total, ofStrings]
  cases f with
  | manufacture =>
      rw [hother .model nofun, hother .commandSet nofun]
      omega
  | model =>
      rw [hother .manufacture nofun, hother .commandSet nofun]
      omega
  | commandSet =>
      rw [hother .manufacture nofun, hother .model nofun]
      omega
  | description =>
      rw [hother .manufacture nofun, hother .model nofun, hother .commandSet nofun]
      omega

theorem total_runClaims (hs : ∀ g n, s.field g = some n → n < s.calls)
    {cs : List (Field × Str)} (h : Strings.runClaims heap wait s cs = some t) :
    (ofStrings t).total ≤ (ofStrings s).total + (cs.map fun c ↦ c.2.length).sum := by
  induction cs generalizing s with
  | nil =>
      obtain rfl := Option.some.inj h
      exact Nat.le_refl _
  | cons c cs ih =>
      obtain ⟨f, value⟩ := c
      rw [Strings.runClaims, Option.bind_eq_some_iff] at h
      obtain ⟨u, hu, hrest⟩ := h
      have hone := total_storeValue hs hu
      have hall := ih (text_storeValue hs hu).1 hrest
      simp only [List.map_cons, List.sum_cons]
      omega

theorem length_pieces (id : Str) : ((pieces id).map List.length).sum ≤ id.length := by
  induction id with
  | nil => exact Nat.le_refl 0
  | cons c cs ih =>
      unfold pieces
      split
      · show 0 + ((pieces cs).map List.length).sum ≤ cs.length + 1
        omega
      · cases hpieces : pieces cs with
        | nil =>
            show 1 + 0 ≤ cs.length + 1
            omega
        | cons piece rest =>
            rw [hpieces] at ih
            simp only [List.map_cons, List.sum_cons, List.length_cons] at ih ⊢
            omega

theorem length_partClaim {part : Str} (h : partClaim part = some (f, value)) :
    value.length ≤ part.length := by
  have hdrop := (List.dropWhile_sublist (· ≠ Http.chr ':') (l := part)).length_le
  unfold partClaim at h
  split at h
  · cases h
  · rename_i c rest hrest
    rw [hrest, List.length_cons] at hdrop
    obtain ⟨g, -, heq⟩ := Option.map_eq_some_iff.mp h
    obtain ⟨-, rfl⟩ := Prod.mk.inj heq
    omega

theorem length_claims (id : Str) : ((claims id).map fun c ↦ c.2.length).sum ≤ id.length := by
  refine Nat.le_trans ?_ (length_pieces id)
  unfold claims
  induction pieces id with
  | nil => exact Nat.le_refl 0
  | cons part parts ih =>
      rw [List.filterMap_cons, List.map_cons, List.sum_cons]
      cases hpart : partClaim part with
      | none => exact Nat.le_trans ih (Nat.le_add_left _ _)
      | some c =>
          have hone := length_partClaim hpart
          simp only [List.map_cons, List.sum_cons]
          omega

theorem total_parseDeviceId {fuel : Nat} {buffer : List UInt8} {d : Parsing}
    (hparse : parseDeviceId heap wait fuel buffer = some d) (hfuel : buffer.length < fuel) :
    (ofStrings d.strings).total ≤ (cstr (buffer ++ [0]) 0).length := by
  obtain ⟨g, heq, hg⟩ := @parseDeviceId_eq heap wait buffer fuel hfuel
  rw [heq] at hparse
  obtain ⟨t, hrun, rfl⟩ := Option.map_eq_some_iff.mp hparse
  have htotal := total_runClaims (fun _ _ hn ↦ by cases hn) hrun
  rw [total_ofStrings_empty, Nat.zero_add] at htotal
  rw [(hg t).1]
  exact Nat.le_trans htotal (length_claims _)

end DeviceInfo

/-- The id stands behind its length in a buffer of `LENGTH_OF_DEVICE_ID` bytes. -/
structure ParPort where
  hasGetDeviceID : UInt8
  info : DeviceInfo
  fits : info.total + 3 ≤ lengthOfDeviceID

/-- `usbprn_attach`; `buffer` is what stands from `tmp[2]` on. -/
def ParPort.attach {heap : Nat → Bool} {wait fuel : Nat} {buffer : List UInt8} {d : Parsing}
    (hparse : parseDeviceId heap wait fuel buffer = some d) (hfuel : buffer.length < fuel)
    (hid : (cstr (buffer ++ [0]) 0).length + 3 ≤ lengthOfDeviceID) : ParPort where
  hasGetDeviceID := 1
  info := .ofStrings d.strings
  fits := by
    have htotal := DeviceInfo.total_parseDeviceId hparse hfuel
    omega

/-- `usbprn_unattach` -/
def ParPort.unattach : ParPort where
  hasGetDeviceID := 0
  info := DeviceInfo.empty
  fits := by decide

end PrintServer.Nt
