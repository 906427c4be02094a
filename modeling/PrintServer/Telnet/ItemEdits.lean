import PrintServer.Telnet.DottedQuad

/-!
# What a menu item changes

An item has bits of the record for its own.  Each handler asks for its lines, which leaves the
record alone, and then stores into these bits and sets `ModifyConfigFlag`.
-/

namespace PrintServer.Telnet

open Flash Http Lib Novell

/-- Some bits of every byte of a field. -/
def bitsOf (f : Flash.Field) (bits : UInt8) (i : Nat) : UInt8 :=
  if f.offset ≤ i ∧ i < f.offset + f.size then bits else 0

def community (k : Nat) : Flash.Field := ⟨Eeprom.snmpCommunityAuthName.offset + 13 * k, 13⟩
def trapTarget (k : Nat) : Flash.Field := ⟨Eeprom.snmpTrapTargetIP.offset + 4 * k, 4⟩

/-- The first entry of an array. -/
def firstOf (f : Flash.Field) (size : Nat) : Flash.Field := ⟨f.offset, size⟩

/-- The bits of `TELNET_EEPROM_Data` that an item is there for. -/
def SetItem.own : SetItem → Nat → UInt8
  | deviceName => bitsOf Eeprom.boxName 0xff
  | contact => bitsOf Eeprom.snmpSysContact 0xff
  | location => bitsOf Eeprom.snmpSysLocation 0xff
  | password => bitsOf Eeprom.password 0xff
  | biDirect1 => bitsOf (firstOf Eeprom.bidirectional 1) 0xff
  | printServerName => bitsOf Eeprom.printServerName 0xff
  | pollingTime => bitsOf Eeprom.pollingTime 0xff
  | novellPassword => bitsOf Eeprom.novellPassword 0xff
  | ndsStatus => bitsOf Eeprom.printServerMode 0x10
  | ndsTreeName => bitsOf Eeprom.ndsTreeName 0xff
  | ndsContext => bitsOf Eeprom.ndsContext 0xff
  | netwareStatus => bitsOf Eeprom.printServerMode 0x01
  | fileServerName => bitsOf Eeprom.fileServerNames 0xff
  | dhcpAndBootp => bitsOf Eeprom.printServerMode 0x80
  | ipAddress => bitsOf Eeprom.boxIPAddress 0xff
  | subnetMask => bitsOf Eeprom.subNetMask 0xff
  | gateway => bitsOf Eeprom.getwayAddress 0xff
  | community1 => fun i ↦ bitsOf (community 0) 0xff i ||| bitsOf Eeprom.snmpAccessFlag 0x18 i
  | community2 => fun i ↦ bitsOf (community 1) 0xff i ||| bitsOf Eeprom.snmpAccessFlag 0x60 i
  | snnpTraps => bitsOf Eeprom.snmpAccessFlag 0x01
  | authenTraps => bitsOf Eeprom.snmpAccessFlag 0x06
  | trap1 => bitsOf (trapTarget 0) 0xff
  | trap2 => bitsOf (trapTarget 1) 0xff
  | zoneName => bitsOf Eeprom.atZoneName 0xff
  | applePortName => bitsOf Eeprom.atPortName 0xff
  | printerType1 => bitsOf (firstOf Eeprom.atPortType 21) 0xff
  | dataFormat1 => bitsOf (firstOf Eeprom.atDataFormat 1) 0xff

variable {own : Nat → UInt8} {s s' s'' : Setup} {f : Flash.Field} {size len echo o : Nat}
  {prompt text : Str} {branch : Str → Setup → Setup} {bs : List UInt8}

/-! ## Input -/

/-- What an input does not touch, and what it may write. -/
structure Setup.Asks (s s' : Setup) : Prop where
  data : s'.data = s.data
  flag : s'.modifyConfigFlag = s.modifyConfigFlag
  stop : s'.behindStopChar = s.behindStopChar
  writes : ∃ ws, s'.writes = s.writes ++ ws ∧ ∀ w ∈ ws, w.Inside

theorem Setup.input_asks (hlen : 0 < len) (hsize : len < size) :
    s.Asks (s.input size len echo).2.2 ∧
      (∀ text, typed len s.term.keys = some text ↔
        (s.input size len echo).1 = .ok ∧ (s.input size len echo).2.1 = text) ∧
      ((s.input size len echo).1 = .ok → (s.input size len echo).2.1.length ≤ len) := by
  have hsound : (getInputString s.term (readMem s.stack 0 size) len echo).Sound len s.term.keys
      (readMem s.stack 0 size) := getInputString_sound hlen (by rwa [length_readMem])
  refine ⟨⟨rfl, rfl, rfl, _, rfl, ?_⟩, hsound.ok_iff, hsound.short⟩
  intro w hw
  obtain ⟨i, hi, rfl⟩ := List.mem_map.mp hw
  have hinside := hsound.inside i hi
  rw [length_readMem] at hinside
  exact hinside

/-- A line that is typed comes to the branch; without one nothing happens. -/
theorem Setup.ask_asks (hlen : 0 < len) (hsize : len < size) :
    match typed len s.term.keys with
    | some text => text.length ≤ len ∧
        ∃ s', s.Asks s' ∧ s.ask prompt size len echo branch = branch text s'
    | none => s.Asks (s.ask prompt size len echo branch) := by
  obtain ⟨hasks, hok, hshort⟩ := @Setup.input_asks (s.fputs prompt) size len echo hlen hsize
  unfold Setup.ask
  generalize (s.fputs prompt).input size len echo = r at hasks hok hshort ⊢
  obtain ⟨input, text, s'⟩ := r
  have hasks' : s.Asks s' := ⟨hasks.data, hasks.flag, hasks.stop, hasks.writes⟩
  cases htyped : typed len s.term.keys with
  | some text' =>
      obtain ⟨rfl, rfl⟩ := (hok text').mp htyped
      exact ⟨hshort rfl, s', hasks', rfl⟩
  | none =>
      cases input with
      | ok => exact absurd ((hok text).mpr ⟨rfl, rfl⟩) (by simp [Setup.fputs, htyped, Terminal.fputs])
      | error => exact hasks'
      | reading => exact hasks'

/-! ## Edits -/

/-- Own bits change, with the flag. -/
structure Setup.Edits (own : Nat → UInt8) (s s' : Setup) : Prop where
  inside : (∀ w ∈ s.writes, w.Inside) → ∀ w ∈ s'.writes, w.Inside
  frame : ∀ i, s'.data i &&& ~~~ own i = s.data i &&& ~~~ own i
  flagged : s'.data = s.data ∨ s'.modifyConfigFlag = true
  stays : s.modifyConfigFlag = true → s'.modifyConfigFlag = true

namespace Setup

theorem Edits.refl : s.Edits own s := ⟨id, fun _ ↦ rfl, .inl rfl, id⟩

theorem Edits.trans (h : s.Edits own s') (h' : s'.Edits own s'') : s.Edits own s'' where
  inside := fun hs ↦ h'.inside (h.inside hs)
  frame := fun i ↦ (h'.frame i).trans (h.frame i)
  flagged := by
    rcases h'.flagged with hdata | hflag
    · rcases h.flagged with hdata' | hflag'
      · exact .inl (hdata.trans hdata')
      · exact .inr (h'.stays hflag')
    · exact .inr hflag
  stays := fun hs ↦ h'.stays (h.stays hs)

theorem Asks.edits (h : s.Asks s') : s.Edits own s' where
  inside := by
    obtain ⟨ws, hws, hinside⟩ := h.writes
    intro hs w hw
    rw [hws] at hw
    rcases List.mem_append.mp hw with hold | hnew
    · exact hs w hold
    · exact hinside w hnew
  frame := fun i ↦ by rw [h.data]
  flagged := .inl h.data
  stays := fun hs ↦ h.flag.trans hs

theorem fputs_edits : s.Edits own (s.fputs text) := ⟨id, fun _ ↦ rfl, .inl rfl, id⟩

theorem ask_edits (hlen : 0 < len) (hsize : len < size)
    (h : ∀ (text : Str) (s' : Setup), text.length ≤ len → s'.Edits own (branch text s')) :
    s.Edits own (s.ask prompt size len echo branch) := by
  have hasks := @ask_asks s size len echo prompt branch hlen hsize
  cases htyped : typed len s.term.keys with
  | none =>
      rw [htyped] at hasks
      exact hasks.edits
  | some text =>
      rw [htyped] at hasks
      obtain ⟨hshort, s', hs', hbranch⟩ := hasks
      rw [hbranch]
      exact hs'.edits.trans (h text s' hshort)

/-- Where all bits of the bytes that are stored are own ones. -/
theorem put_edits (h : ∀ i, o ≤ i → i < o + bs.length → own i = 0xff) :
    s.Edits own (s.put o bs).flag where
  inside := id
  frame := by
    intro i
    show writeMem s.data o bs i &&& _ = _
    by_cases hlt : i < o
    · rw [writeMem_of_lt hlt]
    by_cases hge : o + bs.length ≤ i
    · rw [writeMem_of_ge hge]
    · rw [h i (by omega) (by omega)]
      have hnone : ∀ b : UInt8, b &&& ~~~ 0xff = 0 := forall_byte (by decide +kernel)
      rw [hnone, hnone]
  flagged := .inr rfl
  stays := fun _ ↦ rfl

theorem bitsOf_mem {bits : UInt8} {i : Nat} (hlo : f.offset ≤ i) (hhi : i < f.offset + f.size) :
    bitsOf f bits i = bits := if_pos ⟨hlo, hhi⟩

theorem put_field_edits (h : bs.length ≤ f.size) :
    s.Edits (bitsOf f 0xff) (s.put f.offset bs).flag :=
  put_edits fun _ hlo hhi ↦ bitsOf_mem hlo (by omega)

/-- A byte of which only own bits change. -/
theorem change_edits {change : UInt8 → UInt8}
    (h : ∀ b, change b &&& ~~~ own o = b &&& ~~~ own o) :
    s.Edits own (s.put o [change (s.data o)]).flag where
  inside := id
  frame := by
    intro i
    show writeMem s.data o [change (s.data o)] i &&& _ = _
    by_cases hlt : i < o
    · rw [writeMem_of_lt hlt]
    by_cases hi : i = o
    · subst hi
      have hget : writeMem s.data i [change (s.data i)] i = change (s.data i) :=
        @writeMem_add _ s.data i 0 [change (s.data i)] Nat.one_pos
      rw [hget, h]
    · have hge : o + [change (s.data o)].length ≤ i := by
        rw [List.length_singleton]
        omega
      rw [writeMem_of_ge hge]
  flagged := .inr rfl
  stays := fun _ ↦ rfl

/-! ## The handlers of texts -/

theorem getText_edits (hlen : 0 < len) (hsize : len < size) (hf : f.size = len + 1) :
    s.Edits (bitsOf f 0xff) (getText prompt size len f.offset s) := by
  apply ask_edits hlen hsize
  intro text s' hshort
  split
  · apply put_field_edits
    rw [List.length_append, List.length_singleton, hf]
    exact Nat.succ_le_succ hshort
  · exact .refl

theorem putFull_edits (hf : f.size = size) (hshort : text.length ≤ size) :
    s.Edits (bitsOf f 0xff) (s.putFull f.offset size text).flag := by
  unfold putFull
  split
  next hne =>
    apply put_field_edits
    rw [List.length_append, List.length_singleton, hf]
    omega
  next => exact put_field_edits (by rwa [hf])

theorem getDeviceName_edits : s.Edits SetItem.deviceName.own s.getDeviceName := by
  apply ask_edits (by decide) (by decide)
  intro text s' hshort
  split
  · exact putFull_edits rfl hshort
  · exact .refl

theorem getPassword_edits : s.Edits SetItem.password.own s.getPassword := by
  apply ask_edits (by decide) (by decide)
  intro old s1 _
  split
  · apply ask_edits (by decide) (by decide)
    intro new s2 _
    apply ask_edits (by decide) (by decide)
    intro temp s3 hshort
    split
    · exact putFull_edits rfl hshort
    · exact fputs_edits
  · exact fputs_edits

theorem getNovellPassword_edits : s.Edits SetItem.novellPassword.own s.getNovellPassword := by
  apply ask_edits (by decide) (by decide)
  intro text s' hshort
  apply put_field_edits
  rw [List.length_append, List.length_singleton, strupr, List.length_map]
  exact Nat.succ_le_succ hshort

/-! ## The handlers of choices -/

/-- Every case leaves the bits of others alone. -/
def Confined (bits : UInt8) (cases : List (Int32 × (UInt8 → UInt8))) : Prop :=
  ∀ c ∈ cases, ∀ b, c.2 b &&& ~~~ bits = b &&& ~~~ bits

theorem getChoice_edits {cases : List (Int32 × (UInt8 → UInt8))} (h : Confined (own o) cases) :
    s.Edits own (getChoice prompt o cases s) := by
  apply ask_edits (by decide) (by decide)
  intro text s' _
  cases hlookup : cases.lookup (atol text) with
  | none => exact .refl
  | some change =>
      apply change_edits
      obtain ⟨_, _, rfl, -⟩ := List.lookup_eq_some_iff.mp hlookup
      exact h _ (List.mem_append_right _ List.mem_cons_self)

theorem confined_of_bytes {bits : UInt8} {cases : List (Int32 × (UInt8 → UInt8))}
    (h : (cases.all fun c ↦ (List.range 256).all fun i ↦
      (c.2 (UInt8.ofNat i) &&& ~~~ bits) == (UInt8.ofNat i &&& ~~~ bits)) = true) :
    Confined bits cases := by
  intro c hc
  apply forall_byte
  intro i hi
  have hbyte := List.all_eq_true.mp (List.all_eq_true.mp h c hc) i (List.mem_range.mpr hi)
  exact beq_iff_eq.mp hbyte

theorem getPollingTime_edits : s.Edits SetItem.pollingTime.own s.getPollingTime := by
  apply ask_edits (by decide) (by decide)
  intro text s' _
  split
  · exact put_field_edits (Nat.le_refl _)
  · exact .refl

/-- A name in a field of its own and a mode in a byte that has bits of others. -/
theorem getCommunity_edits {namePrompt : Str} {cases : List (Int32 × (UInt8 → UInt8))}
    (hown : ∀ i, o ≤ i → i < o + 13 → own i = 0xff)
    (hcases : Confined (own Eeprom.snmpAccessFlag.offset) cases) :
    s.Edits own (getCommunity namePrompt prompt o cases s) := by
  obtain ⟨hasks, -, hshort⟩ := @input_asks (s.fputs namePrompt) 13 12 1 (by decide) (by decide)
  unfold getCommunity
  generalize (s.fputs namePrompt).input 13 12 1 = r at hasks hshort ⊢
  obtain ⟨input, text, s'⟩ := r
  have hstart : s.Edits own s' := fputs_edits.trans hasks.edits
  cases input with
  | reading => exact hstart
  | error => exact hstart.trans (getChoice_edits hcases)
  | ok =>
      have hname : s'.Edits own (if text ≠ [] then (s'.put o (text ++ [0])).flag else s') := by
        split
        · apply put_edits
          intro i hlo hhi
          have hlength := hshort rfl
          rw [List.length_append, List.length_singleton] at hhi
          apply hown i hlo
          dsimp only at hlength
          omega
        · exact .refl
      exact (hstart.trans hname).trans (getChoice_edits hcases)

/-! ## What is asked of an item -/

/-- A setup from which the flag and the writes of a run can be seen. -/
def cleared (s : Setup) : Setup := { s with modifyConfigFlag := false, writes := [] }

/-- From `s` to `s'` the arrays are kept, only own bits change, and they do so only with the flag;
an address changes only to a dotted quad that was typed. -/
structure Edited (own : Nat → UInt8) (address : Option Flash.Field) (s s' : Setup) : Prop where
  inside : ∀ w ∈ s'.writes, w.Inside
  own : ∀ i, s'.data i &&& ~~~ own i = s.data i &&& ~~~ own i
  flagged : s'.data ≠ s.data → s'.modifyConfigFlag = true
  quad : ∀ f, address = some f → readMem s'.data f.offset 4 = readMem s.data f.offset 4 ∨
    ∃ text q, typed 99 s.term.keys = some text ∧ IsQuad text q ∧ readMem s'.data f.offset 4 = q

theorem Edits.edited (h : s.cleared.Edits own s') : s.Edited own none s' where
  inside := h.inside fun _ hw ↦ absurd hw List.not_mem_nil
  own := h.frame
  flagged := fun hne ↦ h.flagged.resolve_left hne
  quad := fun _ hf ↦ nomatch hf

/-- Without the flag nothing may change. -/
theorem edited_iff_of_unflagged (h : s'.modifyConfigFlag = false) :
    s.Edited own none s' ↔ (∀ w ∈ s'.writes, w.Inside) ∧ s'.data = s.data := by
  constructor
  · intro he
    refine ⟨he.inside, ?_⟩
    by_contra hne
    exact absurd (he.flagged hne) (by simp [h])
  · rintro ⟨hinside, hdata⟩
    exact ⟨hinside, fun i ↦ by rw [hdata], fun hne ↦ absurd hdata hne, fun _ hf ↦ nomatch hf⟩

end Setup

end PrintServer.Telnet
