import MyCloud.Cgi.Status
import MyCloud.Panel.Proof.Change

/-!
# The status page against the LED

* `status_eval`: the lines of `panel-op status`.
* `getsec_smart`, `getsec_md`: what `index.cgi` reads back of two of its sections.
* `health_eval`: the color `led-status` computes.
* `dashboard_agrees_iff`: the page shows DEGRADED or FAILED just when the LED is red iff nothing is
  wrong, or what is wrong is in the two lines of `/proc/mdstat` that the page sees, or the disk has
  failed and its report says neither STANDBY nor PASSED.
-/

set_option autoImplicit false

namespace Cgi

open Shell Panel Script

variable {e : Env} {w : World}

/-! ## The output of `status` -/

@[simp] theorem exec_probe (p : Probe) : exec e (.probe p) w = (e.probe p, w) := (rfl)

def serviceLine (e : Env) (s : Bytes) : Line :=
  s ++ if (e.probe (.pidof s)).isSome then bytes " up" else bytes " DOWN"

theorem serviceLines_eval (ss : List Bytes) :
    (serviceLines ss).eval (exec e) w = (.ok (ss.map (serviceLine e)), w) := by
  induction ss with
  | nil => rfl
  | cons s ss ih =>
    simp only [serviceLines, sh_bind, eval_call, exec_probe, eval_bind, ih]
    rfl

/-- The line of the section `led`. -/
def ledLine (e : Env) (w : World) : Line :=
  bytes "color=" ++ (exec e .ledGet w).1 ++ bytes " blink=" ++ (e.probe .ledBlink).getD [] ++
    bytes " brightness=" ++ (exec e .ledGetBrightness w).1

/-- The text a probe shows, empty if it fails. -/
def shows (e : Env) (p : Probe) : Bytes := (e.probe p).getD []

/-- The lines before the section `md`. -/
def statusHead (e : Env) : List Line :=
  bytes "## uptime" :: (lines (shows e .uptime) ++
    bytes "## mem" :: (((lines (shows e .free)).drop 1).take 1 ++
      bytes "## df" :: (lines (shows e .df)).drop 1))

/-- The lines after it, but for the last. -/
def statusTail (e : Env) : List Line :=
  bytes "## services" :: (services.map (serviceLine e) ++
    [bytes "## smart", smartWord (shows e .smartHealth), bytes "## led"])

def statusLines (e : Env) (w : World) : List Line :=
  statusHead e ++ bytes "## md" :: (mdLines (shows e .mdstat) ++ (statusTail e ++ [ledLine e w]))

theorem status_eval : status.eval (exec e) w = (.ok (unlines (statusLines e w)), w) := by
  have hget : (exec e .ledGet w).2 = w := rfl
  have hbright : (exec e .ledGetBrightness w).2 = w := rfl
  unfold status
  simp only [sh_bind, eval_call, exec_probe, eval_bind, serviceLines_eval, hget, hbright]
  simp only [pure_eq_ret, eval_ret, statusLines, statusHead, statusTail, ledLine, shows,
    List.cons_append, List.append_assoc, List.nil_append]

/-! ## Sections -/

section
variable {s h : Line} {ls rest : List Line}

theorem secLines_start (s : Line) (f : Bool) (rest : List Line) :
    secLines s f (s :: rest) = secLines s true rest := by simp [secLines]

theorem secLines_heading (hh : isHeading h = true) (hne : h ≠ s) (f : Bool) (rest : List Line) :
    secLines s f (h :: rest) = secLines s false rest := by simp [secLines, hh, hne]

theorem secLines_item (hs : isHeading s = true) (hh : isHeading h = false) (f : Bool)
    (rest : List Line) :
    secLines s f (h :: rest) = (if f then [h] else []) ++ secLines s f rest := by
  have hne : h ≠ s := by
    rintro rfl
    rw [hs] at hh
    cases hh
  cases f <;> simp [secLines, hh, hne]

theorem secLines_items (hs : isHeading s = true) (h : ∀ l ∈ ls, isHeading l = false) (f : Bool)
    (rest : List Line) :
    secLines s f (ls ++ rest) = (if f then ls else []) ++ secLines s f rest := by
  induction ls with
  | nil => cases f <;> rfl
  | cons l ls ih =>
    rw [List.cons_append, secLines_item hs (h l List.mem_cons_self),
      ih fun l hl => h l (List.mem_cons_of_mem _ hl)]
    cases f <;> simp

end

/-- The lines of `/proc/mdstat` in the section `md`: the first that begins with `md`, and the one
after it unless that reads as a heading. -/
def shownMd (mdstat : Bytes) : List Line := (mdLines mdstat).takeWhile fun l => !isHeading l

theorem mdLines_subset (t : Bytes) : mdLines t ⊆ lines t := fun _ hl =>
  (List.dropWhile_sublist _).subset (List.mem_of_mem_take hl)

theorem shownMd_subset (t : Bytes) : shownMd t ⊆ lines t := fun _ hl =>
  mdLines_subset t ((List.takeWhile_sublist _).subset hl)

theorem isHeading_of_head {l : Line} (h : l.head? ≠ some '#'.toUInt8) : isHeading l = false :=
  decide_eq_false fun ⟨t, ht⟩ => h (by rw [← ht]; rfl)

theorem mdLines_cases (t : Bytes) :
    mdLines t = [] ∨ ∃ l, isHeading l = false ∧ (mdLines t = [l] ∨ ∃ l', mdLines t = [l, l']) := by
  unfold mdLines
  have hd := List.head?_dropWhile_not (fun l => decide (¬ bytes "md" <+: l)) (lines t)
  cases h : (lines t).dropWhile fun l => ¬ bytes "md" <+: l with
  | nil => exact .inl rfl
  | cons l ls =>
    rw [h] at hd
    obtain ⟨t, rfl⟩ : bytes "md" <+: l := by simpa using hd
    have hmd : (bytes "md" ++ t).head? ≠ some '#'.toUInt8 := by
      rw [List.head?_append_of_ne_nil _ (show bytes "md" ≠ [] by decide)]
      decide
    refine .inr ⟨_, isHeading_of_head hmd, ?_⟩
    cases ls with
    | nil => exact .inl rfl
    | cons l' ls => exact .inr ⟨l', rfl⟩

/-- The section `md` ends at the next heading, whatever the second line of it is. -/
theorem secLines_md {s h : Line} (hs : isHeading s = true) (hh : isHeading h = true) (hne : h ≠ s)
    (f : Bool) (t : Bytes) (rest : List Line) :
    secLines s f (mdLines t ++ h :: rest) = (if f then shownMd t else []) ++
      secLines s false rest := by
  unfold shownMd
  rcases mdLines_cases t with h0 | ⟨l, hl, h1 | ⟨l', h2⟩⟩
  · rw [h0, List.nil_append, secLines_heading hh hne]
    cases f <;> rfl
  · rw [h1, List.cons_append, secLines_item hs hl, List.nil_append, secLines_heading hh hne]
    cases f <;> simp [hl]
  · rw [h2, List.cons_append, secLines_item hs hl, List.cons_append, List.nil_append]
    cases hl' : isHeading l' with
    | false =>
      rw [secLines_item hs hl', secLines_heading hh hne]
      cases f <;> simp [hl, hl']
    | true =>
      by_cases he : l' = s
      · rw [he, secLines_start, secLines_heading hh hne]
        cases f <;> simp [hl, hs]
      · rw [secLines_heading hl' he, secLines_heading hh hne]
        cases f <;> simp [hl, hl']

/-! ## What `index.cgi` reads back -/

/-- The probes show texts, and those before the section `md` have no line that reads as a heading;
what the LED driver shows is one line. -/
structure Tidy (e : Env) (w : World) : Prop where
  text : ∀ p, 0 ∉ shows e p
  plain : ∀ p ∈ [Probe.uptime, .free, .df], ∀ l ∈ lines (shows e p), isHeading l = false
  blink : nl ∉ shows e .ledBlink
  led : ∀ t ∈ [w.led.color, w.led.brightness], nl ∉ t ∧ 0 ∉ t

theorem statusHead_items (hT : Tidy e w) {s : Line} (hs : isHeading s = true)
    (hu : bytes "## uptime" ≠ s) (hm : bytes "## mem" ≠ s) (hd : bytes "## df" ≠ s)
    (rest : List Line) : secLines s false (statusHead e ++ rest) = secLines s false rest := by
  have hfree : ∀ l ∈ ((lines (shows e .free)).drop 1).take 1, isHeading l = false := fun l hl =>
    hT.plain .free (by decide) l (List.mem_of_mem_drop (List.mem_of_mem_take hl))
  have hdf : ∀ l ∈ (lines (shows e .df)).drop 1, isHeading l = false := fun l hl =>
    hT.plain .df (by decide) l (List.mem_of_mem_drop hl)
  rw [statusHead, List.cons_append, secLines_heading (by decide) hu, List.append_assoc,
    secLines_items hs (hT.plain .uptime (by decide)), List.cons_append,
    secLines_heading (by decide) hm, List.append_assoc, secLines_items hs hfree, List.cons_append,
    secLines_heading (by decide) hd, secLines_items hs hdf]
  rfl

theorem serviceLine_item : ∀ l ∈ services.map (serviceLine e), isHeading l = false := by
  intro l hl
  obtain ⟨s, hs, rfl⟩ := List.mem_map.1 hl
  have hne : ∀ s ∈ services, s ≠ [] ∧ s.head? ≠ some '#'.toUInt8 := by decide
  refine isHeading_of_head ?_
  rw [serviceLine, List.head?_append_of_ne_nil _ (hne s hs).1]
  exact (hne s hs).2

theorem smartWord_item (out : Bytes) : isHeading (smartWord out) = false := by
  unfold smartWord
  split_ifs <;> decide

theorem ledLine_item : isHeading (ledLine e w) = false := by
  refine isHeading_of_head ?_
  simp only [ledLine, List.append_assoc]
  rw [List.head?_append_of_ne_nil _ (show bytes "color=" ≠ [] by decide)]
  decide

/-- The lines of the section `smart`: the verdict. -/
theorem secLines_smart (hT : Tidy e w) :
    secLines (bytes "## smart") false (statusLines e w) = [smartWord (shows e .smartHealth)] := by
  have hs : isHeading (bytes "## smart") = true := by decide
  rw [statusLines, statusHead_items hT hs (by decide) (by decide) (by decide),
    secLines_heading (by decide) (by decide), statusTail, List.cons_append,
    secLines_md hs (by decide) (by decide), List.append_assoc,
    secLines_items hs serviceLine_item, List.cons_append, secLines_start, List.cons_append,
    secLines_item hs (smartWord_item _), List.cons_append,
    secLines_heading (by decide) (by decide), List.nil_append, secLines_item hs ledLine_item]
  rfl

/-- The lines of the section `md`. -/
theorem secLines_raid (hT : Tidy e w) :
    secLines (bytes "## md") false (statusLines e w) = shownMd (shows e .mdstat) := by
  have hs : isHeading (bytes "## md") = true := by decide
  rw [statusLines, statusHead_items hT hs (by decide) (by decide) (by decide), secLines_start,
    statusTail, List.cons_append, secLines_md hs (by decide) (by decide), List.append_assoc,
    secLines_items hs serviceLine_item, List.cons_append,
    secLines_heading (by decide) (by decide), List.cons_append, secLines_item hs (smartWord_item _),
    List.cons_append, secLines_heading (by decide) (by decide), List.nil_append,
    secLines_item hs ledLine_item]
  simp [secLines]

/-- A line of a text. -/
def Clean (l : Line) : Prop := nl ∉ l ∧ 0 ∉ l

instance (l : Line) : Decidable (Clean l) := inferInstanceAs (Decidable (_ ∧ _))

theorem clean_append {a b : Line} : Clean (a ++ b) ↔ Clean a ∧ Clean b := by
  simp only [Clean, List.mem_append, not_or]
  exact ⟨fun h => ⟨⟨h.1.1, h.2.1⟩, h.1.2, h.2.2⟩, fun h => ⟨⟨h.1.1, h.2.1⟩, h.1.2, h.2.2⟩⟩

theorem clean_lines {t : Bytes} (h0 : 0 ∉ t) : ∀ l ∈ lines t, Clean l := fun l hl =>
  ⟨sep_notMem_records t l hl, fun hm => h0 (mem_of_mem_records hl hm)⟩

theorem ledLine_clean (hT : Tidy e w) : Clean (ledLine e w) := by
  have hget : Clean (exec e .ledGet w).1 := by
    change Clean (if e.ok .ledGet then w.led.color else [])
    split
    · exact hT.led _ List.mem_cons_self
    · decide
  have hbright : Clean (exec e .ledGetBrightness w).1 := by
    change Clean (if e.ok .ledGetBrightness then w.led.brightness else [])
    split
    · exact hT.led _ (by simp)
    · decide
  have hblink : Clean ((e.probe .ledBlink).getD []) := ⟨hT.blink, hT.text .ledBlink⟩
  simp only [ledLine, clean_append]
  exact ⟨⟨⟨⟨⟨by decide, hget⟩, by decide⟩, hblink⟩, by decide⟩, hbright⟩

theorem statusLines_clean (hT : Tidy e w) : ∀ l ∈ statusHead e ++ bytes "## md" ::
    (mdLines (shows e .mdstat) ++ statusTail e), Clean l := by
  have hmd : ∀ l ∈ mdLines (shows e .mdstat), Clean l := fun l hl =>
    clean_lines (hT.text _) l (mdLines_subset _ hl)
  have hsvc : ∀ l ∈ services.map (serviceLine e), Clean l := by
    intro l hl
    obtain ⟨s, hs, rfl⟩ := List.mem_map.1 hl
    have hclean : ∀ s ∈ services, Clean s := by decide
    refine clean_append.2 ⟨hclean s hs, ?_⟩
    split <;> decide
  have hword : Clean (smartWord (shows e .smartHealth)) := by
    unfold smartWord
    split_ifs <;> decide
  intro l hl
  simp only [statusHead, statusTail, List.mem_append, List.mem_cons, List.not_mem_nil, or_false] at hl
  rcases hl with (rfl | hl | rfl | hl | rfl | hl) | rfl | hl | rfl | hl | rfl | rfl | rfl
  · decide
  · exact clean_lines (hT.text _) l hl
  · decide
  · exact clean_lines (hT.text _) l (List.mem_of_mem_drop (List.mem_of_mem_take hl))
  · decide
  · exact clean_lines (hT.text _) l (List.mem_of_mem_drop hl)
  · decide
  · exact hmd l hl
  · decide
  · exact hsvc l hl
  · decide
  · exact hword
  · decide

theorem zero_notMem_unlines {ls : List Line} (h : ∀ l ∈ ls, Clean l) : 0 ∉ unlines ls :=
  notMem_terminate (by decide) fun l hl => (h l hl).2

/-- `$(...)` of clean lines loses only the last newline. -/
theorem subst_unlines {ls : List Line} {x : Line} (h : ∀ l ∈ ls, Clean l) (hx : Clean x)
    (hne : x ≠ []) : subst (unlines (ls ++ [x])) = unlines ls ++ x :=
  subst_terminate (fun l hl => (h l hl).2) hx.2 hx.1 hne

/-- The captured output of `panel-op status`. -/
def captured (e : Env) (w : World) : Bytes := subst (unlines (statusLines e w))

theorem lines_captured (hT : Tidy e w) : lines (captured e w ++ [nl]) = statusLines e w := by
  have hclean := statusLines_clean hT
  have hled := ledLine_clean hT
  have hne : ledLine e w ≠ [] := by simp [ledLine, show bytes "color=" ≠ [] by decide]
  have hsplit : statusLines e w = (statusHead e ++ bytes "## md" ::
      (mdLines (shows e .mdstat) ++ statusTail e)) ++ [ledLine e w] := by
    simp only [statusLines, List.append_assoc, List.cons_append]
  have hall : ∀ l ∈ statusLines e w, nl ∉ l := by
    rw [hsplit]
    intro l hl
    rcases List.mem_append.1 hl with hl | hl
    · exact (hclean l hl).1
    · rw [List.mem_singleton.1 hl]
      exact hled.1
  have hu : captured e w ++ [nl] = unlines (statusLines e w) := by
    rw [captured, hsplit, subst_unlines hclean hled hne]
    simp [unlines]
  rw [hu]
  exact records_terminate hall

theorem getsec_smart (hT : Tidy e w) :
    getsec (captured e w) (bytes "smart") = smartWord (shows e .smartHealth) := by
  have hs : bytes "## " ++ bytes "smart" = bytes "## smart" := by decide
  have hclean : Clean (smartWord (shows e .smartHealth)) ∧ smartWord (shows e .smartHealth) ≠ [] := by
    unfold smartWord
    split_ifs <;> decide
  rw [getsec, lines_captured hT, hs, secLines_smart hT]
  exact (@subst_unlines [] _ (fun _ h => absurd h List.not_mem_nil) hclean.1 hclean.2).trans
    (List.nil_append _)

theorem getsec_md (hT : Tidy e w) :
    getsec (captured e w) (bytes "md") = subst (unlines (shownMd (shows e .mdstat))) := by
  have hs : bytes "## " ++ bytes "md" = bytes "## md" := by decide
  rw [getsec, lines_captured hT, hs, secLines_raid hT]

/-! ## Degraded arrays -/

/-- The line has a group of disks with one missing. -/
def lineDegraded (l : Line) : Bool := (diskGroups l).any (·.contains '_'.toUInt8)

theorem degraded_eq (t : Bytes) : degraded t = (lines t).any lineDegraded := rfl

theorem degraded_close (t : Bytes) : degraded (t ++ [nl]) = degraded t := by
  rw [degraded_eq, degraded_eq, lines, records_close, List.any_append, lines]
  split
  · simp [lineDegraded, diskGroups]
  · simp

theorem degraded_subst {t : Bytes} (h0 : 0 ∉ t) : degraded (subst t) = degraded t := by
  induction t using List.reverseRecOn with
  | nil => rfl
  | append_singleton t c ih =>
    by_cases hc : c = nl
    · subst hc
      rw [subst_newline, degraded_close, ih fun h => h0 (List.mem_append_left _ h)]
    · rw [subst_eq h0 (by simpa using hc)]

/-- The page sees the lines in the section. -/
theorem degraded_md (hT : Tidy e w) : degraded (getsec (captured e w) (bytes "md")) =
    (shownMd (shows e .mdstat)).any lineDegraded := by
  have hclean : ∀ l ∈ shownMd (shows e .mdstat), Clean l := fun l hl =>
    clean_lines (hT.text _) l (shownMd_subset _ hl)
  rw [getsec_md hT, degraded_subst (zero_notMem_unlines hclean), degraded_eq, lines, unlines,
    records_terminate fun l hl => (hclean l hl).1]

/-- The lines the page sees are lines of `/proc/mdstat`. -/
theorem degraded_of_shownMd {t : Bytes} (h : (shownMd t).any lineDegraded = true) :
    degraded t = true := by
  obtain ⟨l, hl, hd⟩ := List.any_eq_true.1 h
  exact List.any_eq_true.2 ⟨l, shownMd_subset t hl, hd⟩

/-! ## The verdict on the disk -/

theorem smartCell_failed_iff (out : Bytes) : smartCell (smartWord out) = .failed ↔
    ¬ bytes "STANDBY" <:+: out ∧ ¬ bytes "PASSED" <:+: out.map toUpper ∧ saysFailed out = true := by
  unfold smartWord saysFailed
  split_ifs with h1 h2 h3
  · exact iff_of_false (by decide) fun h => h.1 h1
  · exact iff_of_false (by decide) fun h => h.2.1 h2
  · exact iff_of_true (by decide) ⟨h1, h2, decide_eq_true h3⟩
  · exact iff_of_false (by decide) fun h => h3 (of_decide_eq_true h.2.2)

/-! ## The color -/

section
variable (e : StatusEnv) (w : World)

theorem probe_op (p : Probe) : StatusCmd.exec e (.op (.probe p)) w = (e.op.probe p, w) := rfl

theorem serviceState_eval (ss : List Bytes) (state : Bytes) :
    (serviceState ss state).eval (StatusCmd.exec e) w =
      (.ok (if ss.all fun s => (e.op.probe (.pidof s)).isSome then state else yellow), w) := by
  induction ss generalizing state with
  | nil => rfl
  | cons s ss ih =>
    simp only [serviceState, op, sh_bind, eval_call, eval_ite]
    simp only [probe_op, ih, List.all_cons]
    by_cases hs : (e.op.probe (.pidof s)).isSome = true <;> simp [hs]

/-- `df` shows a use of 90% or more. -/
def full (df : Bytes) : Bool := decide (usePercent df ≠ [] ∧ 90 ≤ toNat (usePercent df))

theorem diskState_eval (ms : List Bytes) (state : Bytes) :
    (diskState ms state).eval (StatusCmd.exec e) w =
      (.ok (if ms.any fun m => full (e.pcent m) then yellow else state), w) := by
  induction ms generalizing state with
  | nil => rfl
  | cons m ms ih =>
    have hp : StatusCmd.exec e (.pcent m) w = (e.pcent m, w) := rfl
    simp only [diskState, sh_bind, eval_call, hp, eval_ite, ih, List.any_cons, full]
    by_cases h : usePercent (e.pcent m) ≠ [] ∧ 90 ≤ toNat (usePercent (e.pcent m)) <;> simp [h]

/-- The color before the RAID array and the disk are looked at. -/
def softState : Bytes :=
  if [bytes "/", bytes "/srv/nas"].any fun m => full (e.pcent m) then yellow
  else if [bytes "smbd", bytes "sshd"].all fun s => (e.op.probe (.pidof s)).isSome then blue
  else yellow

/-- **The color `led-status` computes.** -/
theorem health_eval : health.eval (StatusCmd.exec e) w =
    (.ok (if saysFailed (shows e.op .smartHealth) = true then red
      else if degraded (shows e.op .mdstat) = true then red else softState e), w) := by
  simp only [health, op, eval_bind, serviceState_eval, diskState_eval, sh_bind, eval_call, probe_op,
    pure_eq_ret, eval_ret]
  rfl

theorem softState_ne : softState e ≠ red := by
  unfold softState
  split_ifs <;> decide

theorem health_red_iff : (health.eval (StatusCmd.exec e) w).1 = .ok red ↔
    saysFailed (shows e.op .smartHealth) = true ∨ degraded (shows e.op .mdstat) = true := by
  rw [health_eval]
  have hs := softState_ne e
  split_ifs with h1 h2
  · simp [h1]
  · simp [h2]
  · simp [h1, h2, hs]

end

/-! ## Agreement -/

/-- The page shows RAID DEGRADED or SMART FAILED. -/
def ShowsBad (page : StatusTable) : Prop := page.raidDegraded = true ∨ page.smart = .failed

instance (page : StatusTable) : Decidable (ShowsBad page) := inferInstanceAs (Decidable (_ ∨ _))

/-- Nothing is wrong; or the two lines of `/proc/mdstat` that the page sees have a degraded array; or
the report on the disk says FAILED and neither STANDBY nor PASSED. -/
def InView (mdstat out : Bytes) : Prop :=
  (degraded mdstat = false ∧ saysFailed out = false) ∨ (shownMd mdstat).any lineDegraded = true ∨
    (saysFailed out = true ∧ ¬ bytes "STANDBY" <:+: out ∧ ¬ bytes "PASSED" <:+: out.map toUpper)

instance (mdstat out : Bytes) : Decidable (InView mdstat out) :=
  inferInstanceAs (Decidable (_ ∨ _ ∨ _))

theorem index_cgi_page (e : Env) (r : Request) (w : World) :
    (index_cgi e r w).1.2 = statusTable (captured e (index_post e r w).2) := by
  have h : ∀ w, sudo_op e [bytes "status"] [] w = status.eval (exec e) w := fun _ => rfl
  simp only [index_cgi, h, status_eval]
  rfl

/-- **The page and the LED agree on red iff** what is wrong is in the page's view. -/
theorem dashboard_agrees_iff {e : StatusEnv} {r : Request} {w : World}
    (hT : Tidy e.op (index_post e.op r w).2) (w' : World) :
    (ShowsBad (index_cgi e.op r w).1.2 ↔ (health.eval (StatusCmd.exec e) w').1 = .ok red) ↔
      InView (shows e.op .mdstat) (shows e.op .smartHealth) := by
  have hbad : ShowsBad (index_cgi e.op r w).1.2 ↔
      (shownMd (shows e.op .mdstat)).any lineDegraded = true ∨
        (¬ bytes "STANDBY" <:+: shows e.op .smartHealth ∧
          ¬ bytes "PASSED" <:+: (shows e.op .smartHealth).map toUpper ∧
          saysFailed (shows e.op .smartHealth) = true) := by
    rw [index_cgi_page, ShowsBad, statusTable]
    simp only [degraded_md hT, getsec_smart hT, smartCell_failed_iff]
  rw [hbad, health_red_iff, InView]
  constructor
  · intro h
    by_cases hred : saysFailed (shows e.op .smartHealth) = true ∨
        degraded (shows e.op .mdstat) = true
    · rcases h.2 hred with h | ⟨h1, h2, h3⟩
      · exact .inr (.inl h)
      · exact .inr (.inr ⟨h3, h1, h2⟩)
    · rw [not_or, Bool.not_eq_true, Bool.not_eq_true] at hred
      exact .inl ⟨hred.2, hred.1⟩
  · -- what the page shows is always there
    rintro (⟨h1, h2⟩ | h | ⟨h1, h2, h3⟩)
    · refine iff_of_false ?_ (by rw [h1, h2]; simp)
      rintro (h | h)
      · exact Bool.false_ne_true (h1.symm.trans (degraded_of_shownMd h))
      · exact Bool.false_ne_true (h2.symm.trans h.2.2)
    · exact iff_of_true (.inl h) (.inr (degraded_of_shownMd h))
    · exact iff_of_true (.inr ⟨h2, h3, h1⟩) (.inl h1)

/-- A box where `/proc/mdstat` and `smartctl` show these texts. -/
def boxEnv (mdstat out : Bytes) : StatusEnv where
  op := {
    outcome := fun _ => .ok
    probe := fun p =>
      if p = .mdstat then some mdstat else if p = .smartHealth then some out else none }
  pcent := fun _ => bytes "Use%\n 12%\n"

theorem tidy_boxEnv {mdstat out : Bytes} (hm : 0 ∉ mdstat) (ho : 0 ∉ out) :
    Tidy (boxEnv mdstat out).op (stage3World ∅) where
  text p := by
    simp only [shows, boxEnv]
    split_ifs
    · exact hm
    · exact ho
    · exact List.not_mem_nil
  plain p hp := by
    have hne : p ≠ .mdstat ∧ p ≠ .smartHealth := by
      simp only [List.mem_cons, List.not_mem_nil, or_false] at hp
      rcases hp with rfl | rfl | rfl <;> decide
    simp only [shows, boxEnv, hne.1, hne.2, if_false]
    exact fun l hl => absurd hl List.not_mem_nil
  blink := List.not_mem_nil
  led := by decide

def plainGet : Request := ⟨bytes "GET", none, []⟩

def inSync : Bytes := bytes
  "Personalities : [raid1]
md1 : active raid1 sda1[0] sda2[1]
      1959936 blocks [2/2] [UU]

unused devices: <none>
"

/-- A second array, with a disk missing. -/
def secondMissing : Bytes := bytes
  "Personalities : [raid1]
md1 : active raid1 sda1[0] sda2[1]
      1959936 blocks [2/2] [UU]

md2 : active raid1 sda4[0]
      974722056 blocks [2/1] [U_]

unused devices: <none>
"

def passed : Bytes := bytes "SMART overall-health self-assessment test result: PASSED\n"

/-- The overall verdict, and an attribute that has failed before. -/
def passedBefore : Bytes := bytes
  "SMART overall-health self-assessment test result: PASSED
ID# ATTRIBUTE_NAME          VALUE WORST THRESH TYPE      UPDATED  WHEN_FAILED RAW_VALUE
190 Airflow_Temperature_Cel 061   044   045    Old_age   Always   In_the_past 39
"

/-- In sync and passed: the page and the LED agree. -/
theorem dashboard_in_sync :
    ShowsBad (index_cgi (boxEnv inSync passed).op plainGet (stage3World ∅)).1.2 ↔
      (health.eval (StatusCmd.exec (boxEnv inSync passed)) (stage3World ∅)).1 = .ok red := by
  have hT : Tidy (boxEnv inSync passed).op (index_post (boxEnv inSync passed).op plainGet
      (stage3World ∅)).2 := tidy_boxEnv (by decide +kernel) (by decide +kernel)
  have hview : InView (shows (boxEnv inSync passed).op .mdstat)
      (shows (boxEnv inSync passed).op .smartHealth) := by decide +kernel
  exact (dashboard_agrees_iff hT (stage3World ∅)).2 hview

/-- The LED is red for both, and the page shows nothing: the second array is not among its two
lines, and the report is taken for PASSED. -/
theorem dashboard_blind :
    ¬ (ShowsBad (index_cgi (boxEnv secondMissing passed).op plainGet (stage3World ∅)).1.2 ↔
      (health.eval (StatusCmd.exec (boxEnv secondMissing passed)) (stage3World ∅)).1 = .ok red) ∧
    ¬ (ShowsBad (index_cgi (boxEnv inSync passedBefore).op plainGet (stage3World ∅)).1.2 ↔
      (health.eval (StatusCmd.exec (boxEnv inSync passedBefore)) (stage3World ∅)).1 = .ok red) := by
  decide +kernel

end Cgi
