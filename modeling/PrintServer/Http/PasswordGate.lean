import PrintServer.Http.Httpd

/-!
# What a request without the password can do
-/

namespace PrintServer.Http

variable {ε : Type} {env : HttpEnv ε} {box : Box ε}

/-! ## Traces -/

theorem gated_nil : Gated env box [] := fun _ h ↦ by cases h

theorem gated_cons {p : HttpEvent × Box ε} {t : Trace ε} :
    Gated env box (p :: t) ↔ (p.1.Harmless env ∧ p.2 = box) ∧ Gated env box t := by
  unfold Gated
  exact List.forall_mem_cons

theorem gated_append {t u : Trace ε} :
    Gated env box (t ++ u) ↔ Gated env box t ∧ Gated env box u := by
  unfold Gated
  exact List.forall_mem_append

/-- A gated trace ends with the settings it started with. -/
theorem Gated.last_eq {t : Trace ε} (h : Gated env box t) : t.last box = box := by
  unfold Trace.last
  cases hlast : t.getLast? with
  | none => rfl
  | some p => exact (h p (List.mem_of_getLast? hlast)).2

theorem quit_gated_iff : Gated env box (quit env box) ↔ box.pending = false := by
  cases hp : box.pending with
  | false =>
      simp only [quit, hp, Bool.false_eq_true, if_false, iff_true]
      exact gated_nil
  | true =>
      simp only [Bool.true_eq_false, iff_false]
      intro h
      -- the restart clears both flags, and one of them was set
      have hclear : ∀ b : Box ε, { b with needReboot := false, needReset := false } ≠ box := by
        rintro b rfl
        cases hp
      simp only [quit, hp, if_true] at h
      split at h
      · exact (gated_cons.mp h).1.1
      · split at h
        · exact (gated_cons.mp h).1.1
        · exact hclear _ (gated_cons.mp h).1.2

theorem httpd_gated_iff {req : Request} :
    Gated env box (httpd env box req) ↔
      Gated env box (answer env box (receive env req)) ∧ box.pending = false := by
  unfold httpd
  rw [gated_append]
  constructor
  · rintro ⟨ha, hq⟩
    rw [ha.last_eq] at hq
    exact ⟨ha, quit_gated_iff.mp hq⟩
  · rintro ⟨ha, hp⟩
    refine ⟨ha, ?_⟩
    rw [ha.last_eq]
    exact quit_gated_iff.mpr hp

/-! ## The kinds of answers -/

theorem harmless_displayCGIMsg (htmlName : Str) : (displayCGIMsg env htmlName).Harmless env := by
  unfold displayCGIMsg
  split <;> trivial

theorem echoItems_gated_iff {items : List Str} :
    Gated env box (echoItems box items) ↔ ∀ item ∈ items, echoOutput box item = box := by
  induction items with
  | nil => simp [echoItems, gated_nil]
  | cons item items ih =>
      rw [echoItems, gated_cons, List.forall_mem_cons]
      constructor
      · rintro ⟨⟨-, hbox⟩, hrest⟩
        change echoOutput box item = box at hbox
        rw [hbox] at hrest
        exact ⟨hbox, ih.mp hrest⟩
      · rintro ⟨hbox, hrest⟩
        rw [hbox]
        exact ⟨⟨trivial, rfl⟩, ih.mpr hrest⟩

theorem upgrade_gated_iff {rq : ReqInfo} {reject : Bool} {data : List UInt8} :
    Gated env box (upgrade env box rq reject data) ↔ reject = true := by
  unfold upgrade
  cases reject with
  | true =>
      simp only [if_true, iff_true]
      exact gated_cons.mpr ⟨⟨harmless_displayCGIMsg _, rfl⟩, gated_nil⟩
  | false =>
      simp only [Bool.false_eq_true, if_false, iff_false]
      exact fun h ↦ (gated_cons.mp h).1.1

theorem not_gated_processCgi {rq : ReqInfo} {query : Str} :
    ¬ Gated env box (processCgi env box rq query) :=
  fun h ↦ (gated_cons.mp h).1.1

theorem sendFile_of_sendsPage {rq : ReqInfo} {page : List UInt8} (h : sendsPage env rq page) :
    sendFile env box rq =
      (.httpHeaders 200, box) :: (.sendPage (fileUrl rq.url), box) ::
        if fileType env (fileUrl rq.url) = tHtm then sendhtml env box page else [] := by
  obtain ⟨hpfs, hhead, hmod⟩ := h
  simp only [sendFile, hpfs, hmod, Bool.false_eq_true, if_false, if_neg hhead]

/-- An error, the headers alone or 304 change nothing. -/
theorem sendFile_gated_of_not {rq : ReqInfo} (h : ∀ page, ¬ sendsPage env rq page) :
    Gated env box (sendFile env box rq) := by
  have harmless (e : HttpEvent) (he : e.Harmless env) : Gated env box [(e, box)] :=
    gated_cons.mpr ⟨⟨he, rfl⟩, gated_nil⟩
  simp only [sendFile]
  cases hpfs : env.pfs (fileUrl rq.url) with
  | none => exact harmless (.httpError 404 _) trivial
  | some page =>
      cases hmod : notModified env rq (fileType env (fileUrl rq.url)) with
      | true => exact harmless (.httpHeaders 304) trivial
      | false =>
          by_cases hhead : rq.method = .head
          · simp only [Bool.false_eq_true, if_false, hhead, if_true]
            exact harmless (.httpHeaders 200) trivial
          · exact absurd ⟨hpfs, hhead, hmod⟩ (h page)

theorem sendFile_gated_iff {rq : ReqInfo} :
    Gated env box (sendFile env box rq) ↔
      ∀ page, sendsPage env rq page → inAuthFileList env (fileUrl rq.url) = true ∧
        (fileType env (fileUrl rq.url) = tHtm →
          ∀ item ∈ pageItems env.heap (pfsLines page.length page), echoOutput box item = box) := by
  constructor
  · intro hg page hpage
    rw [sendFile_of_sendsPage hpage, gated_cons, gated_cons] at hg
    obtain ⟨-, ⟨hlisted, -⟩, hitems⟩ := hg
    refine ⟨hlisted, fun htm ↦ ?_⟩
    rw [if_pos htm] at hitems
    exact echoItems_gated_iff.mp hitems
  · intro h
    by_cases hpage : ∃ page, sendsPage env rq page
    · obtain ⟨page, hpage⟩ := hpage
      obtain ⟨hlisted, hitems⟩ := h page hpage
      rw [sendFile_of_sendsPage hpage, gated_cons, gated_cons]
      refine ⟨⟨trivial, rfl⟩, ⟨hlisted, rfl⟩, ?_⟩
      split
      · rename_i htm
        exact echoItems_gated_iff.mpr (hitems htm)
      · exact gated_nil
    · exact sendFile_gated_of_not fun page hp ↦ hpage ⟨page, hp⟩

/-- Without an accepted password a request gets through only where its url is exempt. -/
theorem authorization_of_unauthorized {rq : ReqInfo} (hpw : box.curSetupPassword ≠ [])
    (hauth : ∀ passwd ∈ rq.passwd, accepted env box passwd = false) :
    (¬ diagnosticMode env box = true ∧ ¬ authorization env box rq = true) ↔
      exempt env box rq = false := by
  have hany : rq.passwd.any (accepted env box) = false := by
    cases hp : rq.passwd with
    | none => rfl
    | some passwd => exact hauth passwd hp
  simp only [authorization, exempt, hpw, hany, Bool.false_eq_true, or_false, false_or,
    decide_eq_true_eq, Bool.or_eq_false_iff, Bool.not_eq_true]
  exact and_comm

theorem request_gated_iff {rq : ReqInfo} (hpw : box.curSetupPassword ≠ [])
    (hauth : ∀ passwd ∈ rq.passwd, accepted env box passwd = false) :
    Gated env box (answer env box (.request rq)) ↔
      (exempt env box rq = true → rq.query = none ∧
        ∀ page, sendsPage env rq page → inAuthFileList env (fileUrl rq.url) = true ∧
          (fileType env (fileUrl rq.url) = tHtm →
            ∀ item ∈ pageItems env.heap (pfsLines page.length page),
              echoOutput box item = box)) := by
  cases hex : exempt env box rq with
  | false =>
      simp only [answer, if_pos ((authorization_of_unauthorized hpw hauth).mpr hex),
        Bool.false_eq_true, false_imp_iff, iff_true]
      exact gated_cons.mpr ⟨⟨trivial, rfl⟩, gated_nil⟩
  | true =>
      have hpass : ¬ (¬ diagnosticMode env box = true ∧ ¬ authorization env box rq = true) := by
        rw [authorization_of_unauthorized hpw hauth, hex]
        exact Bool.noConfusion
      simp only [answer, if_neg hpass, true_imp_iff]
      cases hquery : rq.query with
      | none =>
          simp only [true_and]
          exact sendFile_gated_iff
      | some query =>
          simp only [reduceCtorEq, false_and, iff_false]
          exact not_gated_processCgi

/-! ## The gate -/

theorem answer_gated_iff {r : Received} (hpw : box.curSetupPassword ≠ [])
    (hauth : ∀ passwd ∈ r.passwd, accepted env box passwd = false) :
    Gated env box (answer env box r) ↔
      (∀ rq data, r ≠ .upload rq false data) ∧
      ∀ rq, r = .request rq → exempt env box rq = true → rq.query = none ∧
        ∀ page, sendsPage env rq page → inAuthFileList env (fileUrl rq.url) = true ∧
          (fileType env (fileUrl rq.url) = tHtm →
            ∀ item ∈ pageItems env.heap (pfsLines page.length page),
              echoOutput box item = box) := by
  cases r with
  | quit => simp [answer, gated_nil]
  | httpError resp str => simp [answer, gated_cons, gated_nil, HttpEvent.Harmless]
  | ippd port => simp [answer, gated_cons, gated_nil, HttpEvent.Harmless]
  | upload rq reject data =>
      simp only [answer, reduceCtorEq, false_imp_iff, implies_true, and_true]
      rw [upgrade_gated_iff]
      constructor
      · rintro rfl rq' data' ⟨⟩
      · intro h
        by_contra hr
        exact h rq data (by rw [Bool.eq_false_iff.mpr hr])
  | request rq =>
      rw [request_gated_iff hpw hauth]
      simp only [ne_eq, reduceCtorEq, not_false_eq_true, implies_true, true_and,
        Received.request.injEq, forall_eq']

/-- The password gates a request that is not authorized exactly when the request and the pending
flags take none of the ways around it. -/
theorem web_password_gates_iff (env : HttpEnv ε) (box : Box ε) (req : Request)
    (hpw : box.curSetupPassword ≠ []) (hauth : Unauthorized env box req) :
    Gated env box (httpd env box req) ↔ GateOk env box req := by
  rw [httpd_gated_iff, answer_gated_iff hpw hauth]
  constructor
  · rintro ⟨⟨hupload, hrequest⟩, hpending⟩
    exact
      { notPending := hpending
        noUpload := hupload
        noQuery := fun rq hr hex ↦ (hrequest rq hr hex).1
        listed := fun rq hr hex page hp ↦ ((hrequest rq hr hex).2 page hp).1
        noSetting := fun rq hr hex page hp ↦ ((hrequest rq hr hex).2 page hp).2 }
  · intro h
    refine ⟨⟨h.noUpload, fun rq hr hex ↦ ⟨h.noQuery rq hr hex, fun page hp ↦ ?_⟩⟩, h.notPending⟩
    exact ⟨h.listed rq hr hex page hp, h.noSetting rq hr hex page hp⟩

/-- A box with the password `secret`, the file `IPP.HTM` and a list that exempts it. -/
def sampleEnv : HttpEnv Unit where
  authFileList := [bytes "IPP.HTM"]
  pfs := fun url ↦ if stricmp url (bytes "IPP.HTM") = 0 then some (bytes "<HTML></HTML>") else none
  lastModified := bytes "Wed, 25 Jul 2001 01:00:00 GMT"
  psMode := psIppMode
  diagFlag := false
  authSeed := 0x1015
  seedFirst := true
  heap := []
  lowText := fun _ ↦ []
  otherType := 6
  allocCode2Memory := true
  cgiBoxSetting := fun box _ ↦ (false, box)
  apUpgradeFirmware := fun _ ↦ true
  writeToEEPROM := id
  resetToDefalutFlash := id

def sampleBox : Box Unit :=
  { eeprom := ⟨[0, 0x40, 1, 2, 3, 4], 0, ()⟩, curSetupPassword := bytes "secret",
    needReboot := false, needReset := false, needLoadDefault := false, needWriteEEPROM := false }

def pageRequest : Request :=
  { lines := [bytes "GET /ipp.htm HTTP/1.1\n", bytes "\n"], body := [] }

/-- The exempt page is sent to anybody, and nothing else happens. -/
theorem web_password_gates_exempt_page :
    (Gated sampleEnv sampleBox (httpd sampleEnv sampleBox pageRequest) ↔
        GateOk sampleEnv sampleBox pageRequest) ∧
      (httpd sampleEnv sampleBox pageRequest).map Prod.fst =
        [.httpHeaders 200, .sendPage (bytes "ipp.htm")] := by
  refine ⟨web_password_gates_iff sampleEnv sampleBox pageRequest (by decide +kernel) ?_,
    by decide +kernel⟩
  have hnone : (receive sampleEnv pageRequest).passwd = none := by decide +kernel
  intro passwd h
  rw [hnone] at h
  cases h

/-- A multipart form with one file and no Authorization header. -/
def uploadRequest : Request :=
  { lines := [bytes "POST /IPP.HTM HTTP/1.1\n", bytes "Content-Length: 24\n",
      bytes "Content-Type: multipart/form-data; boundary=b\n", bytes "\n", bytes "--b\n",
      bytes "\n"]
    body := [some (bytes "FIRMWARE\n--b--\n")] }

/-- The file of the form is programmed. -/
theorem upload_bypasses_password :
    sampleBox.curSetupPassword ≠ [] ∧ Unauthorized sampleEnv sampleBox uploadRequest ∧
      httpd sampleEnv sampleBox uploadRequest =
        [(.apUpgradeFirmware (bytes "FIRMWARE"), sampleBox),
          (.displayCGIMsg (bytes "IPP.HTM"), sampleBox)] ∧
      ¬ Gated sampleEnv sampleBox (httpd sampleEnv sampleBox uploadRequest) := by
  have hnone : (receive sampleEnv uploadRequest).passwd = none := by decide +kernel
  have htrace : httpd sampleEnv sampleBox uploadRequest =
      [(.apUpgradeFirmware (bytes "FIRMWARE"), sampleBox),
        (.displayCGIMsg (bytes "IPP.HTM"), sampleBox)] := by decide +kernel
  refine ⟨by decide +kernel, ?_, htrace, fun h ↦ ?_⟩
  · intro passwd h
    rw [hnone] at h
    cases h
  · rw [htrace] at h
    exact (gated_cons.mp h).1.1

end PrintServer.Http
