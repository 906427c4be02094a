import PrintServer.Telnet.NetworkNames

/-!
# Which lines a menu item can stand

Every item of the setup menus but those for addresses and for names from the network edits its own
bits only, whatever is typed.  For the others the lines and names are stated for which this holds.
-/

namespace PrintServer.Telnet

open Flash Http Lib Setup

def SetItem.address : SetItem → Option Flash.Field
  | ipAddress => some Eeprom.boxIPAddress
  | subnetMask => some Eeprom.subNetMask
  | gateway => some Eeprom.getwayAddress
  | trap1 => some (trapTarget 0)
  | trap2 => some (trapTarget 1)
  | _ => none

/-- A run of the item's handler from `s` edits the bits of the item only. -/
def EditsOnlyOwn (item : SetItem) (s : Setup) : Prop :=
  s.Edited item.own item.address (item.get s.cleared)

variable {s s' : Setup} {f : Flash.Field} {own : Nat → UInt8} {prompt text : Str}

/-! ## Addresses -/

/-- A line that passes the tests fits `temp[40]`.  If its tokens are in range, too, its parts are
unbroken numbers, or the field has the bytes already. -/
def AddressKept (f : Flash.Field) (s : Setup) : Prop :=
  ∀ text, typed 99 s.term.keys = some text → Formatted text →
    text.length < 40 ∧ (InRange s.stopChars text →
      (∀ part ∈ parts text, Unbroken part) ∨ readMem s.data f.offset 4 = boxBytes text)

theorem edited_of_data {address : Option Flash.Field} (hdata : s'.data = s.data)
    (hinside : ∀ w ∈ s'.writes, w.Inside) : s.Edited own address s' where
  inside := hinside
  own := fun i ↦ by rw [hdata]
  flagged := fun hne ↦ absurd hdata hne
  quad := fun f _ ↦ .inl (by rw [hdata])

theorem trapBytes_eq (text : Str) : trapBytes text = boxBytes text := (le32_dwordSwap _).symm

theorem Setup.Asks.inside (h : s.cleared.Asks s') : ∀ w ∈ s'.writes, w.Inside := by
  obtain ⟨ws, hws, hinside⟩ := h.writes
  rw [hws]
  exact hinside

/-- `temp` holds a line of less than 40 characters. -/
theorem note_inside (h : ∀ w ∈ s.writes, w.Inside) :
    (∀ w ∈ (s.note [⟨40, 0, text.length + 1⟩]).writes, w.Inside) ↔ text.length < 40 := by
  show (∀ w ∈ s.writes ++ [⟨40, 0, text.length + 1⟩], w.Inside) ↔ _
  rw [List.forall_mem_append, List.forall_mem_singleton]
  constructor
  · rintro ⟨-, hnew⟩
    dsimp only [LocalWrite.Inside] at hnew
    omega
  · intro hshort
    refine ⟨h, ?_⟩
    dsimp only [LocalWrite.Inside]
    omega

/-- What is stored is a dotted quad that was typed, or changes nothing. -/
theorem edited_put_iff (hf : f.size = 4) (hs : s.cleared.Asks s')
    (htyped : typed 99 s.term.keys = some text) (hformat : Formatted text) :
    s.Edited (bitsOf f 0xff) (some f)
        (((s'.note [⟨40, 0, text.length + 1⟩]).put f.offset (boxBytes text)).flag) ↔
      text.length < 40 ∧
        ((∀ part ∈ parts text, Unbroken part) ∨ readMem s.data f.offset 4 = boxBytes text) := by
  have hinside := @note_inside s' text hs.inside
  have hdata : s'.data = s.data := hs.data
  have hread : readMem (writeMem s'.data f.offset (boxBytes text)) f.offset 4 = boxBytes text :=
    readMem_writeMem
  have hedits : (s'.note [⟨40, 0, text.length + 1⟩]).Edits (bitsOf f 0xff)
      (((s'.note [⟨40, 0, text.length + 1⟩]).put f.offset (boxBytes text)).flag) :=
    put_field_edits (by rw [hf]; exact Nat.le_refl 4)
  constructor
  · intro h
    refine ⟨hinside.mp h.inside, ?_⟩
    rcases h.quad f rfl with hsame | ⟨text', q, htyped', hquad, -⟩
    · right
      exact hsame.symm.trans hread
    · left
      rw [htyped, Option.some.injEq] at htyped'
      subst htyped'
      exact hquad.unbroken
  · rintro ⟨hshort, hkept⟩
    refine ⟨hinside.mpr hshort, fun i ↦ ?_, fun _ ↦ rfl, ?_⟩
    · rw [← hdata]
      exact hedits.frame i
    · rintro _ ⟨⟩
      rcases hkept with hunbroken | hsame
      · right
        obtain ⟨q, hquad⟩ := hformat.isQuad hunbroken
        exact ⟨text, q, htyped, hquad, hread.trans hquad.boxBytes⟩
      · left
        exact hread.trans hsame.symm

theorem getAddress_eq_ask (bytesOf : Str → List UInt8) (o : Nat) :
    getAddress prompt bytesOf o s = s.ask prompt 100 99 1 fun text s ↦
      if (s.checkInputIPAddress text).1 then
        ((s.checkInputIPAddress text).2.put o (bytesOf text)).flag
      else (s.checkInputIPAddress text).2 := by
  unfold getAddress
  congr 1
  funext text s
  generalize s.checkInputIPAddress text = r
  obtain ⟨ok, s'⟩ := r
  cases ok with
  | false => rfl
  | true => rfl

theorem getAddress_edited_iff {bytesOf : Str → List UInt8} (hf : f.size = 4)
    (hbytes : ∀ text, bytesOf text = boxBytes text) :
    s.Edited (bitsOf f 0xff) (some f) (getAddress prompt bytesOf f.offset s.cleared) ↔
      AddressKept f s := by
  have hasks := @ask_asks s.cleared 100 99 1 prompt
    (fun text s ↦
      if (s.checkInputIPAddress text).1 then
        ((s.checkInputIPAddress text).2.put f.offset (bytesOf text)).flag
      else (s.checkInputIPAddress text).2) (by decide) (by decide)
  have hkeys : typed 99 s.cleared.term.keys = typed 99 s.term.keys := rfl
  rw [hkeys] at hasks
  rw [getAddress_eq_ask]
  unfold AddressKept
  cases htyped : typed 99 s.term.keys with
  | none =>
      rw [htyped] at hasks
      constructor
      · intro _ text h
        cases h
      · exact fun _ ↦ edited_of_data hasks.data hasks.inside
  | some text =>
      rw [htyped] at hasks
      obtain ⟨-, s', hs', hrun⟩ := hasks
      have hstop : s'.stopChars = s.stopChars := by
        unfold stopChars
        rw [hs'.stop]
        rfl
      rw [hrun]
      unfold checkInputIPAddress
      simp only [Option.some.injEq, forall_eq']
      by_cases hformat : Formatted text
      · by_cases hrange : InRange s.stopChars text
        · simp only [hformat, hstop, hrange, if_true, decide_true, hbytes, forall_const]
          exact edited_put_iff hf hs' htyped hformat
        · simp only [hformat, hstop, hrange, if_true, decide_false, false_implies, and_true,
            forall_const]
          constructor
          · exact fun h ↦ (note_inside hs'.inside).mp h.inside
          · exact fun h ↦ edited_of_data hs'.data ((note_inside hs'.inside).mpr h)
      · simp only [hformat, if_false, false_implies, iff_true]
        exact edited_of_data hs'.data hs'.inside

/-! ## All items -/

/-- What an item needs of the lines that are typed and of the names on the network. -/
def SetItem.Kept (item : SetItem) (s : Setup) : Prop :=
  match item with
  | fileServerName => FileServersKept s
  | ndsTreeName => TreesKept s
  | ipAddress => AddressKept Eeprom.boxIPAddress s
  | subnetMask => AddressKept Eeprom.subNetMask s
  | gateway => AddressKept Eeprom.getwayAddress s
  | trap1 => AddressKept (trapTarget 0) s
  | trap2 => AddressKept (trapTarget 1) s
  | _ => True

theorem getCommunity1_edits : s.Edits SetItem.community1.own s.getCommunity1 := by
  apply getCommunity_edits
  · intro i hlo hhi
    have hall : ∀ b : UInt8, 0xff ||| b = 0xff := forall_byte (by decide +kernel)
    have hname : bitsOf (community 0) 0xff i = 0xff := bitsOf_mem hlo hhi
    show bitsOf (community 0) 0xff i ||| _ = _
    rw [hname, hall]
  · apply confined_of_bytes
    decide +kernel

theorem getCommunity2_edits : s.Edits SetItem.community2.own s.getCommunity2 := by
  apply getCommunity_edits
  · intro i hlo hhi
    have hall : ∀ b : UInt8, 0xff ||| b = 0xff := forall_byte (by decide +kernel)
    have hname : bitsOf (community 1) 0xff i = 0xff := bitsOf_mem hlo hhi
    show bitsOf (community 1) 0xff i ||| _ = _
    rw [hname, hall]
  · apply confined_of_bytes
    decide +kernel

/-- Telnet edits only the chosen setting exactly if the item gets what it needs. -/
theorem editsOnlyOwn_iff (item : SetItem) (s : Setup) : EditsOnlyOwn item s ↔ item.Kept s := by
  have hfree (h : s.cleared.Edits item.own (item.get s.cleared)) (haddress : item.address = none) :
      EditsOnlyOwn item s ↔ True := by
    unfold EditsOnlyOwn
    rw [haddress]
    exact iff_true_intro h.edited
  cases item with
  | deviceName => exact hfree getDeviceName_edits rfl
  | contact => exact hfree (getText_edits (by decide) (by decide) rfl) rfl
  | location => exact hfree (getText_edits (by decide) (by decide) rfl) rfl
  | password => exact hfree getPassword_edits rfl
  | biDirect1 => exact hfree (getChoice_edits (confined_of_bytes (by decide +kernel))) rfl
  | printServerName => exact hfree (getText_edits (by decide) (by decide) rfl) rfl
  | pollingTime => exact hfree getPollingTime_edits rfl
  | novellPassword => exact hfree getNovellPassword_edits rfl
  | ndsStatus => exact hfree (getChoice_edits (confined_of_bytes (by decide +kernel))) rfl
  | ndsTreeName => exact getNDSTreeName_edited_iff
  | ndsContext => exact hfree (getText_edits (by decide) (by decide) rfl) rfl
  | netwareStatus => exact hfree (getChoice_edits (confined_of_bytes (by decide +kernel))) rfl
  | fileServerName => exact getFileServerName_edited_iff
  | dhcpAndBootp => exact hfree (getChoice_edits (confined_of_bytes (by decide +kernel))) rfl
  | ipAddress => exact getAddress_edited_iff rfl fun _ ↦ rfl
  | subnetMask => exact getAddress_edited_iff rfl fun _ ↦ rfl
  | gateway => exact getAddress_edited_iff rfl fun _ ↦ rfl
  | community1 => exact hfree getCommunity1_edits rfl
  | community2 => exact hfree getCommunity2_edits rfl
  | snnpTraps => exact hfree (getChoice_edits (confined_of_bytes (by decide +kernel))) rfl
  | authenTraps => exact hfree (getChoice_edits (confined_of_bytes (by decide +kernel))) rfl
  | trap1 => exact getAddress_edited_iff rfl trapBytes_eq
  | trap2 => exact getAddress_edited_iff rfl trapBytes_eq
  | zoneName => exact hfree (getText_edits (by decide) (by decide) rfl) rfl
  | applePortName => exact hfree (getText_edits (by decide) (by decide) rfl) rfl
  | printerType1 => exact hfree (@getText_edits _ (firstOf Eeprom.atPortType 21) _ _ _ (by decide)
      (by decide) rfl) rfl
  | dataFormat1 => exact hfree (getChoice_edits (confined_of_bytes (by decide +kernel))) rfl

/-! ## A file server -/

/-- One file server, `FS`, and the client takes it. -/
def oneServer : Setup where
  term := ⟨[some (chr '1'), some 13], [], false⟩
  data := fun _ ↦ 0
  modifyConfigFlag := false
  serviceFSCount := 0
  offsetOfFSName := fun _ ↦ 0
  writes := []
  stack := fun _ ↦ 0
  behindStopChar := []
  objects := some [⟨chr 'F' :: chr 'S' :: List.replicate 46 0, rfl⟩]

/-- The name is stored, and the flag is not set. -/
theorem server_not_flagged : ¬ ∀ item s, EditsOnlyOwn item s := by
  intro h
  have hrun := h .fileServerName oneServer
  have hdata : (SetItem.fileServerName.get oneServer.cleared).data 100 ≠ oneServer.data 100 := by
    decide
  have hflag : (SetItem.fileServerName.get oneServer.cleared).modifyConfigFlag = false := by
    decide
  have hset := hrun.flagged fun heq ↦ hdata (congrFun heq 100)
  rw [hflag] at hset
  exact Bool.false_ne_true hset

end PrintServer.Telnet
