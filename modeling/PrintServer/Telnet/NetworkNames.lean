import PrintServer.Telnet.ItemEdits

/-!
# Names from the network in the menus

Two items list what `SearchBinaryObjectName` returns in arrays of a fixed size and let the client
choose by number: when these lists fit, and what the choice stores.
-/

namespace PrintServer.Telnet

open Flash Http Lib Novell

variable {s : Setup} {objects : List ObjectName} {object : ObjectName} {table : List Str}

/-- What a loop over the network leaves: it only lists. -/
structure Setup.Lists (s s' : Setup) : Prop where
  keys : s'.term.keys = s.term.keys
  data : s'.data = s.data
  flag : s'.modifyConfigFlag = s.modifyConfigFlag

theorem length_decimal {n : Nat} (h : n ≤ 100) : (decimal n).length ≤ 3 := by
  have hall : ∀ n < 101, (decimal n).length ≤ 3 := by decide
  exact hall n (by omega)

theorem length_listLine (n : Nat) (name : Str) :
    (listLine n name).length = (decimal n).length + name.length + 4 := by
  have hdot : (bytes ". ").length = 2 := by decide
  have hend : (bytes "\r\n").length = 2 := by decide
  rw [listLine, List.length_append, List.length_append, List.length_append, hdot, hend]
  omega

/-- A string ends at the first NUL. -/
theorem length_cstr_le {b : List UInt8} {k : Nat} (h : b[k]? = some 0) :
    (cstr b 0).length ≤ k := by
  by_contra hlt
  have hk : k < (b.takeWhile (· ≠ 0)).length := by
    rw [cstr, List.drop_zero] at hlt
    exact Nat.lt_of_not_le hlt
  obtain ⟨rest, hsplit⟩ : ∃ rest, b.takeWhile (· ≠ 0) ++ rest = b := List.takeWhile_prefix _
  rw [← hsplit, List.getElem?_append_left hk, List.getElem?_eq_getElem hk] at h
  have hmem := List.mem_takeWhile_imp (List.getElem_mem hk)
  rw [Option.some.inj h] at hmem
  exact absurd hmem (by decide)

/-! ## File servers -/

theorem ObjectName.length_fsName (object : ObjectName) : object.fsName.length ≤ 48 := by
  apply length_cstr_le
  have hend := @List.getElem?_concat_length _ object.octets 0
  rwa [object.length_eq] at hend

/-- The names of the table whose numbers are in a line, each once. -/
def chosen (table : List Str) : List Str → List Nat → List Str
  | [], _ => []
  | number :: numbers, flags =>
      let value := (atol number).toInt
      if 1 ≤ value ∧ value ≤ table.length ∧ value.toNat - 1 ∉ flags then
        table.getD (value.toNat - 1) [] :: chosen table numbers ((value.toNat - 1) :: flags)
      else chosen table numbers flags

def packed (names : List Str) : List UInt8 := names.flatMap (· ++ [0])

theorem Setup.copyNames_spec (table : List Str) (numbers : List Str) (flags : List Nat)
    (total : Nat) (s : Setup) :
    (copyNames table numbers flags total s).2.data =
        writeMem s.data (Eeprom.fileServerNames.offset + total)
          (packed (chosen table numbers flags)) ∧
      (copyNames table numbers flags total s).2.modifyConfigFlag = s.modifyConfigFlag ∧
      (copyNames table numbers flags total s).2.writes = s.writes := by
  induction numbers generalizing flags total s with
  | nil => exact ⟨writeMem_nil.symm, rfl, rfl⟩
  | cons number numbers ih =>
      unfold copyNames chosen
      dsimp only
      split
      next =>
        refine ⟨(ih _ _ _).1.trans ?_, (ih _ _ _).2⟩
        have happend := @writeMem_append _ s.data (Eeprom.fileServerNames.offset + total)
          (table.getD ((atol number).toInt.toNat - 1) [] ++ [0])
        rw [List.length_append, List.length_singleton, Nat.add_assoc] at happend
        exact happend _
      next => exact ih flags total s

theorem Setup.listFileServers_lists (objects : List ObjectName) (table : List Str) (s : Setup) :
    s.Lists (listFileServers objects table s).2 := by
  induction objects generalizing table s with
  | nil => exact ⟨rfl, rfl, rfl⟩
  | cons object objects ih =>
      obtain ⟨hkeys, hdata, hflag⟩ := ih (table ++ [object.fsName]) _
      exact ⟨hkeys, hdata, hflag⟩

theorem Setup.listFileServers_table (objects : List ObjectName) (table : List Str) (s : Setup) :
    (listFileServers objects table s).1 = table ++ objects.map ObjectName.fsName := by
  induction objects generalizing table s with
  | nil => exact (List.append_nil table).symm
  | cons object objects ih =>
      unfold listFileServers
      dsimp only
      rw [ih, List.append_assoc]
      rfl

/-- The entry, its name and the line for the client. -/
theorem inside_listed {count : Nat} {name : Str} {size : Nat} (hname : name.length ≤ 48)
    (hsize : 60 ≤ size) :
    (∀ w ∈ ([⟨100, count, 1⟩, ⟨254, 0, name.length + 1⟩,
      ⟨size, 0, (listLine (count + 1) name).length + 1⟩] : List LocalWrite), w.Inside) ↔
      count < 100 := by
  simp only [List.forall_mem_cons, List.not_mem_nil, false_implies, implies_true, and_true,
    LocalWrite.Inside, length_listLine]
  constructor
  · omega
  · intro hcount
    have hdecimal := length_decimal (show count + 1 ≤ 100 by omega)
    omega

/-- `NTables` has 100 entries. -/
theorem Setup.listFileServers_inside (objects : List ObjectName) (table : List Str) (s : Setup) :
    (∀ w ∈ (listFileServers objects table s).2.writes, w.Inside) ↔
      (∀ w ∈ s.writes, w.Inside) ∧ (objects = [] ∨ table.length + objects.length ≤ 100) := by
  induction objects generalizing table s with
  | nil => simp [listFileServers]
  | cons object objects ih =>
      unfold listFileServers
      dsimp only
      rw [ih]
      have hentry := @inside_listed table.length object.fsName (254 + 4) object.length_fsName
        (by decide)
      have hwrites : (∀ w ∈ ((s.note [⟨100, table.length, 1⟩, ⟨254, 0, object.fsName.length + 1⟩,
          ⟨254 + 4, 0, (listLine (table.length + 1) object.fsName).length + 1⟩]).fputs
            (listLine (table.length + 1) object.fsName)).writes, w.Inside) ↔
          (∀ w ∈ s.writes, w.Inside) ∧ table.length < 100 := by
        rw [← hentry]
        exact List.forall_mem_append
      rw [hwrites, List.length_append, List.length_singleton, List.length_cons, and_assoc]
      apply and_congr_right
      intro _
      cases objects with
      | nil =>
          simp only [true_or, and_true, List.length_nil, List.cons_ne_nil, false_or]
          omega
      | cons object' objects =>
          simp only [List.length_cons, List.cons_ne_nil, false_or]
          omega

theorem chosen_nil (numbers : List Str) (flags : List Nat) : chosen [] numbers flags = [] := by
  induction numbers with
  | nil => rfl
  | cons number numbers ih =>
      unfold chosen
      dsimp only
      rw [if_neg, ih]
      rintro ⟨hlo, hhi, -⟩
      rw [List.length_nil, Nat.cast_zero] at hhi
      omega

/-- The names that a line chooses, with a NUL behind each. -/
def namesIn (objects : List ObjectName) (line : Option Str) : List UInt8 :=
  match line with
  | some text => packed (chosen (objects.map ObjectName.fsName) (text.splitOn (chr ' ')) [])
  | none => []

theorem namesIn_no_objects (line : Option Str) : namesIn [] line = [] := by
  cases line with
  | none => rfl
  | some text =>
      show packed (chosen [] _ []) = []
      rw [chosen_nil]
      rfl

theorem namesIn_nil (objects : List ObjectName) : namesIn objects (some []) = [] := by
  have hnone : ¬ 1 ≤ (atol []).toInt := by decide
  have hchosen (table : List Str) : chosen table [[]] [] = [] := by
    unfold chosen
    dsimp only
    rw [if_neg fun h ↦ hnone h.1]
    rfl
  show packed (chosen _ [[]] []) = []
  rw [hchosen]
  rfl

theorem Setup.storeFileServers_spec (objects : List ObjectName) (text : Str) (s : Setup) :
    (storeFileServers (objects.map ObjectName.fsName) text s).data =
        writeMem s.data Eeprom.fileServerNames.offset (namesIn objects (some text)) ∧
      (storeFileServers (objects.map ObjectName.fsName) text s).modifyConfigFlag =
        s.modifyConfigFlag ∧
      (storeFileServers (objects.map ObjectName.fsName) text s).writes = s.writes := by
  unfold storeFileServers
  split
  next hnil =>
    subst hnil
    rw [namesIn_nil, writeMem_nil]
    exact ⟨rfl, rfl, rfl⟩
  next => exact copyNames_spec _ _ [] 0 s

/-- The names are stored and the flag stays as it is. -/
theorem Setup.getFileServerName_spec {s : Setup} (h : s.objects = some objects) :
    s.getFileServerName.data = writeMem s.data Eeprom.fileServerNames.offset
        (namesIn objects (typed 253 s.term.keys)) ∧
      s.getFileServerName.modifyConfigFlag = s.modifyConfigFlag ∧
      ((∀ w ∈ s.getFileServerName.writes, w.Inside) ↔
        (∀ w ∈ s.writes, w.Inside) ∧ objects.length ≤ 100) := by
  have htable := listFileServers_table objects []
    (s.fputs (bytes "Found out File Server on the network ...\r\n"))
  have hlists := listFileServers_lists objects []
    (s.fputs (bytes "Found out File Server on the network ...\r\n"))
  have hinside := listFileServers_inside objects []
    (s.fputs (bytes "Found out File Server on the network ...\r\n"))
  unfold getFileServerName
  rw [h]
  dsimp only
  generalize listFileServers objects [] _ = r at htable hlists hinside ⊢
  obtain ⟨table, s1⟩ := r
  rw [List.nil_append] at htable
  obtain ⟨hkeys, hdata, hflag⟩ := hlists
  dsimp only at htable hkeys hdata hflag hinside
  subst htable
  cases objects with
  | nil =>
      rw [namesIn_no_objects, writeMem_nil]
      refine ⟨hdata, hflag, hinside.trans ?_⟩
      simp [fputs]
  | cons object objects =>
      have hwrites : (∀ w ∈ s1.writes, w.Inside) ↔
          (∀ w ∈ s.writes, w.Inside) ∧ (object :: objects).length ≤ 100 := by
        simpa [fputs] using hinside
      have hasks := @ask_asks (s1.fputs (bytes "You can give multi-choice, such as 1 2 \r\n"))
        254 253 1 (bytes "Please input numbers: ")
        (storeFileServers ((object :: objects).map ObjectName.fsName)) (by decide) (by decide)
      have hline : typed 253 (s1.fputs (bytes
          "You can give multi-choice, such as 1 2 \r\n")).term.keys = typed 253 s.term.keys :=
        congrArg (typed 253) hkeys
      rw [hline] at hasks
      have hsame {s2 : Setup} (hs2 : (s1.fputs (bytes
          "You can give multi-choice, such as 1 2 \r\n")).Asks s2) :
          s2.data = s.data ∧ s2.modifyConfigFlag = s.modifyConfigFlag ∧
            ((∀ w ∈ s2.writes, w.Inside) ↔ ∀ w ∈ s1.writes, w.Inside) := by
        obtain ⟨ws, hws, hws'⟩ := hs2.writes
        refine ⟨hs2.data.trans hdata, hs2.flag.trans hflag, ?_⟩
        rw [hws, List.forall_mem_append]
        exact and_iff_left hws'
      rw [← hwrites]
      cases htyped : typed 253 s.term.keys with
      | none =>
          rw [htyped] at hasks
          obtain ⟨hdata', hflag', hinside'⟩ := hsame hasks
          refine ⟨?_, hflag', hinside'⟩
          rw [namesIn, writeMem_nil]
          exact hdata'
      | some text =>
          rw [htyped] at hasks
          obtain ⟨-, s2, hs2, hbranch⟩ := hasks
          obtain ⟨hdata', hflag', hinside'⟩ := hsame hs2
          obtain ⟨hstored, hflagged, hkept⟩ := storeFileServers_spec (object :: objects) text s2
          rw [List.map_cons] at hbranch hstored hflagged hkept ⊢
          dsimp only
          rw [hbranch, hstored, hflagged, hkept, hdata']
          exact ⟨rfl, hflag', hinside'⟩

/-- There are at most 100 file servers, and the names that the line chooses are there already. -/
def FileServersKept (s : Setup) : Prop :=
  ∀ objects, s.objects = some objects → objects.length ≤ 100 ∧
    readMem s.data Eeprom.fileServerNames.offset
      (namesIn objects (typed 253 s.term.keys)).length = namesIn objects (typed 253 s.term.keys)

theorem getFileServerName_edited_iff {own : Nat → UInt8} :
    s.Edited own none s.cleared.getFileServerName ↔ FileServersKept s := by
  cases hobjects : s.objects with
  | none =>
      have hrun : s.cleared.getFileServerName =
          s.cleared.fputs (bytes "NetWare File Server Can Not Found on the network\r\n") := by
        unfold Setup.getFileServerName Setup.cleared
        dsimp only
        rw [hobjects]
      rw [hrun]
      constructor
      · intro _ objects h
        rw [hobjects] at h
        cases h
      · intro _
        exact Setup.fputs_edits.edited
  | some objects =>
      obtain ⟨hdata, hflag, hinside⟩ :=
        @Setup.getFileServerName_spec objects s.cleared (by exact hobjects)
      rw [Setup.edited_iff_of_unflagged hflag, hinside, hdata]
      unfold FileServersKept
      simp only [hobjects, Option.some.injEq, forall_eq']
      apply and_congr
      · simp [Setup.cleared]
      · exact writeMem_eq_self_iff

/-! ## Trees -/

theorem getElem?_cutUnderscores {offset k : Nat} (name : List UInt8) (h : offset < k) :
    (cutUnderscores offset name)[k]? = name[k]? := by
  induction offset generalizing name with
  | zero => rfl
  | succ offset ih =>
      unfold cutUnderscores
      split
      · rw [ih _ (by omega), List.getElem?_set_ne (by omega)]
      · exact List.getElem?_set_ne (by omega)

theorem ObjectName.length_dsName (object : ObjectName) : object.dsName.length ≤ 32 := by
  apply length_cstr_le
  have hend : (object.octets.set 32 0)[32]? = some 0 :=
    List.getElem?_set_self (by rw [object.length_eq]; decide)
  unfold cutUnderscores
  split
  · rw [getElem?_cutUnderscores _ (by decide)]
    exact hend
  · exact hend

theorem Setup.listTrees_lists (objects : List ObjectName) (tmpBuf table : List Str) (s : Setup) :
    s.Lists (listTrees objects tmpBuf table s).2 := by
  induction objects generalizing tmpBuf table s with
  | nil => exact ⟨rfl, rfl, rfl⟩
  | cons object objects ih =>
      unfold listTrees
      rcases hasDSExist tmpBuf object.dsName with ⟨_ | _, tmpBuf', ws⟩
      · obtain ⟨hkeys, hdata, hflag⟩ := ih tmpBuf' (table ++ [object.dsName]) _
        exact ⟨hkeys, hdata, hflag⟩
      · exact ih tmpBuf' table s

/-- A name in the table has at most 32 characters. -/
theorem Setup.listTrees_table (objects : List ObjectName) (tmpBuf table : List Str) (s : Setup)
    (h : ∀ name ∈ table, name.length ≤ 32) :
    ∀ name ∈ (listTrees objects tmpBuf table s).1, name.length ≤ 32 := by
  induction objects generalizing tmpBuf table s with
  | nil => exact h
  | cons object objects ih =>
      unfold listTrees
      rcases hasDSExist tmpBuf object.dsName with ⟨_ | _, tmpBuf', ws⟩
      · apply ih
        intro name hname
        rcases List.mem_append.mp hname with hold | hnew
        · exact h name hold
        · rw [List.mem_singleton.mp hnew]
          exact object.length_dsName
      · exact ih tmpBuf' table s h

theorem packedLength_concat (names : List Str) (name : Str) :
    packedLength (names ++ [name]) = packedLength names + (name.length + 1) := by
  rw [packedLength, List.map_append, List.sum_append]
  rfl

theorem Setup.mem_listTrees_writes {w : LocalWrite} (objects : List ObjectName)
    (tmpBuf table : List Str) (s : Setup) (h : w ∈ s.writes) :
    w ∈ (listTrees objects tmpBuf table s).2.writes := by
  induction objects generalizing tmpBuf table s with
  | nil => exact h
  | cons object objects ih =>
      unfold listTrees
      rcases hasDSExist tmpBuf object.dsName with ⟨_ | _, tmpBuf', ws⟩
      · exact ih _ _ _ (List.mem_append_left _ h)
      · exact ih _ _ _ h

theorem Setup.listTrees_inside (objects : List ObjectName) (tmpBuf table : List Str) (s : Setup)
    (hbuf : packedLength tmpBuf ≤ 50) :
    (∀ w ∈ (listTrees objects tmpBuf table s).2.writes, w.Inside) ↔
      (∀ w ∈ s.writes, w.Inside) ∧
        TreesFit tmpBuf table.length (objects.map ObjectName.dsName) := by
  induction objects generalizing tmpBuf table s with
  | nil => simp [listTrees, TreesFit]
  | cons object objects ih =>
      have hname := object.length_dsName
      unfold listTrees
      rw [List.map_cons, TreesFit]
      by_cases hmem : object.dsName ∈ tmpBuf
      · have hexist : hasDSExist tmpBuf object.dsName = (true, tmpBuf, []) := if_pos hmem
        rw [hexist, if_pos hmem]
        exact ih tmpBuf table s hbuf
      · have hexist : hasDSExist tmpBuf object.dsName =
            (false, if object.dsName = [] then tmpBuf else tmpBuf ++ [object.dsName],
              [⟨50, packedLength tmpBuf, object.dsName.length + 2⟩]) := by
          rw [hasDSExist, if_neg hmem, if_pos (by unfold hLineLen; omega)]
        rw [hexist, if_neg hmem]
        dsimp only
        -- a name that does not fit is seen at the end, too
        by_cases hfits : packedLength tmpBuf + object.dsName.length + 2 ≤ 50
        · have hbuf' : packedLength
              (if object.dsName = [] then tmpBuf else tmpBuf ++ [object.dsName]) ≤ 50 := by
            split
            · exact hbuf
            · rw [packedLength_concat]
              omega
          rw [ih _ _ _ hbuf', List.length_append, List.length_singleton]
          have hlisted : (∀ w ∈ ([⟨50, packedLength tmpBuf, object.dsName.length + 2⟩,
              ⟨100, table.length, 1⟩, ⟨254, 0, object.dsName.length + 1⟩,
              ⟨33 + 4, 0, (listLine (table.length + 1) object.dsName).length + 1⟩] :
                List LocalWrite), w.Inside) ↔
              table.length < 100 ∧
                (listLine (table.length + 1) object.dsName).length < 33 + 4 := by
            simp only [List.forall_mem_cons, List.not_mem_nil, false_implies, implies_true,
              and_true, LocalWrite.Inside]
            omega
          have hwrites (ws : List LocalWrite) (text : Str) :
              (∀ w ∈ ((s.note ws).fputs text).writes, w.Inside) ↔
                (∀ w ∈ s.writes, w.Inside) ∧ ∀ w ∈ ws, w.Inside := List.forall_mem_append
          rw [hwrites, List.singleton_append, hlisted]
          constructor
          · rintro ⟨⟨hold, hcount, hline⟩, hrest⟩
            exact ⟨hold, hfits, hcount, hline, hrest⟩
          · rintro ⟨hold, -, hcount, hline, hrest⟩
            exact ⟨⟨hold, hcount, hline⟩, hrest⟩
        · constructor
          · intro hinside
            apply absurd (hinside ⟨50, packedLength tmpBuf, object.dsName.length + 2⟩ _)
            · unfold LocalWrite.Inside
              omega
            · apply mem_listTrees_writes
              exact List.mem_append_right _ List.mem_cons_self
          · rintro ⟨-, hno, -⟩
            exact absurd hno hfits

theorem Setup.storeTree_edits {s : Setup} (h : ∀ name ∈ table, name.length ≤ 32) (text : Str) :
    s.Edits SetItem.ndsTreeName.own (storeTree table text s) := by
  unfold storeTree
  split
  next hvalue =>
    apply put_field_edits
    have hlt : (atol text).toInt.toNat - 1 < table.length := by omega
    rw [List.getD_eq_getElem _ _ hlt, List.length_append, List.length_singleton]
    exact Nat.succ_le_succ (h _ (List.getElem_mem hlt))
  next => exact .refl

theorem Setup.mem_ask_writes {s : Setup} {prompt : Str} {w : LocalWrite} (h : w ∈ s.writes) :
    w ∈ (s.ask prompt 33 9 1 (storeTree table)).writes := by
  have hinput : w ∈ ((s.fputs prompt).input 33 9 1).2.2.writes := List.mem_append_left _ h
  unfold ask
  generalize (s.fputs prompt).input 33 9 1 = r at hinput ⊢
  obtain ⟨_ | _ | _, text, s'⟩ := r
  · exact hinput
  · exact hinput
  · show w ∈ (storeTree table text s').writes
    unfold storeTree
    split <;> exact hinput

def TreesKept (s : Setup) : Prop :=
  ∀ objects, s.objects = some objects → TreesFit [] 0 (objects.map ObjectName.dsName)

theorem getNDSTreeName_edited_iff :
    s.Edited SetItem.ndsTreeName.own none s.cleared.getNDSTreeName ↔ TreesKept s := by
  cases hobjects : s.objects with
  | none =>
      have hrun : s.cleared.getNDSTreeName =
          s.cleared.fputs (bytes "\r\nTree Name can not Found on the network\r\n") := by
        unfold Setup.getNDSTreeName Setup.cleared
        dsimp only
        rw [hobjects]
      rw [hrun]
      constructor
      · intro _ objects h
        rw [hobjects] at h
        cases h
      · intro _
        exact Setup.fputs_edits.edited
  | some objects =>
      have htable := Setup.listTrees_table objects [] [] s.cleared
        fun _ hmem ↦ absurd hmem List.not_mem_nil
      have hlists := Setup.listTrees_lists objects [] [] s.cleared
      have hinside := Setup.listTrees_inside objects [] [] s.cleared (by decide)
      have hkept : TreesKept s ↔ TreesFit [] 0 (objects.map ObjectName.dsName) := by
        unfold TreesKept
        simp only [hobjects, Option.some.injEq, forall_eq']
      have hrun : s.cleared.objects = some objects := hobjects
      rw [hkept]
      unfold Setup.getNDSTreeName
      rw [hrun]
      dsimp only
      generalize Setup.listTrees objects [] [] s.cleared = r at htable hlists hinside ⊢
      obtain ⟨table, s1⟩ := r
      dsimp only at htable hlists hinside
      have hfits : (∀ w ∈ s1.writes, w.Inside) ↔
          TreesFit [] 0 (objects.map ObjectName.dsName) := by
        rw [hinside]
        exact and_iff_right fun w hw ↦ absurd hw List.not_mem_nil
      have hlisted (h : ∀ w ∈ s1.writes, w.Inside) :
          s.cleared.Edits SetItem.ndsTreeName.own s1 :=
        ⟨fun _ ↦ h, fun i ↦ by rw [hlists.data], .inl hlists.data,
          fun hflag ↦ hlists.flag.trans hflag⟩
      rw [← hfits]
      cases table with
      | nil =>
          constructor
          · exact fun h ↦ h.inside
          · exact fun h ↦ ((hlisted h).trans Setup.fputs_edits).edited
      | cons name table =>
          constructor
          · intro h w hw
            exact h.inside w (Setup.mem_ask_writes hw)
          · intro h
            exact ((hlisted h).trans (Setup.ask_edits (by decide) (by decide)
              fun text s' _ ↦ Setup.storeTree_edits htable text)).edited

end PrintServer.Telnet
