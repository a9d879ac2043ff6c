import MyCloud.Tools.Proof.Alignment
import MyCloud.Wsdd.Boot

/-!
# What the responder says of itself

* `endpointLoop_eq`: the loop of `uuid_endpoint` copies at most 32 hex digits, with dashes between them.
* `endpoint_identity`: **the box has an endpoint iff its machine-id begins with 32 hex digits, and these
  are the identity; the build makes such a machine-id of 16 random octets, and loses none of them.**
* `bootOption_hangs_iff`: the texts that the option `-b` never comes to the end of.
* `init_getresp_fault_iff`, `get_smbparm_line`: what is read of the boot information and of `testparm`.
-/

set_option autoImplicit false

namespace Wsdd

open Shell

/-! ## The endpoint -/

/-- The digits from the `k`-th on, with the dashes between them. -/
def spread (k : ℕ) : Bytes → Bytes
  | [] => []
  | c :: d => (if k = 8 ∨ k = 12 ∨ k = 16 ∨ k = 20 then [dash, c] else [c]) ++ spread (k + 1) d

/-- How much is written with `k` digits: four dashes at most, one with the 9th, 13th, 17th and 21st. -/
def size (k : ℕ) : ℕ := k + min 4 ((k - 5) / 4)

/-- One more digit, and a dash before the 9th, 13th, 17th and 21st. -/
theorem size_succ (k : ℕ) :
    size (k + 1) = size k + if k = 8 ∨ k = 12 ∨ k = 16 ∨ k = 20 then 2 else 1 := by
  unfold size
  split <;> omega

theorem size_cases (k : ℕ) : (size k < 36 ↔ k < 32) ∧
    ((size k = 8 ∨ size k = 13 ∨ size k = 18 ∨ size k = 23) ↔
      (k = 8 ∨ k = 12 ∨ k = 16 ∨ k = 20)) := by
  unfold size
  omega

/-- The digits that count. -/
def digits (t : Bytes) : Bytes := (t.takeWhile isLowerHex).take 32

theorem endpointLoop_eq {uuid : Bytes} {k : ℕ} (hk : k ≤ 32) (h : uuid.length = size k) (t : Bytes) :
    endpointLoop uuid t = uuid ++ spread k ((t.takeWhile isLowerHex).take (32 - k)) := by
  induction t generalizing uuid k with
  | nil => simp [endpointLoop, spread]
  | cons c t ih =>
    obtain ⟨hfull, hdash⟩ := size_cases k
    rw [← h] at hfull hdash
    rw [endpointLoop]
    by_cases hgo : uuid.length < 36 ∧ isLowerHex c = true
    · obtain ⟨hlt, hc⟩ := hgo
      have hlt : k < 32 := hfull.1 hlt
      have hrest : 32 - k = (32 - (k + 1)) + 1 := by omega
      rw [if_pos ⟨hfull.2 hlt, hc⟩, List.takeWhile_cons_of_pos hc, hrest, List.take_succ_cons, spread]
      dsimp only
      by_cases hd : k = 8 ∨ k = 12 ∨ k = 16 ∨ k = 20
      · have hlen : (uuid ++ [dash, c]).length = size (k + 1) := by
          rw [List.length_append, h, size_succ, if_pos hd]
          rfl
        rw [if_pos (hdash.2 hd), if_pos hd, ih (by omega) hlen, List.append_assoc]
      · have hlen : (uuid ++ [c]).length = size (k + 1) := by
          rw [List.length_append, h, size_succ, if_neg hd]
          rfl
        rw [if_neg (fun h => hd (hdash.1 h)), if_neg hd, ih (by omega) hlen, List.append_assoc]
    · rw [if_neg hgo]
      have hnone : ((c :: t).takeWhile isLowerHex).take (32 - k) = [] := by
        by_cases hc : isLowerHex c = true
        · have hk : 32 - k = 0 := by
            have : ¬ k < 32 := fun hlt => hgo ⟨hfull.2 hlt, hc⟩
            omega
          rw [hk, List.take_zero]
        · rw [List.takeWhile_cons_of_neg hc, List.take_nil]
      rw [hnone, spread, List.append_nil]

theorem length_spread (k : ℕ) (d : Bytes) : size k + (spread k d).length = size (k + d.length) := by
  induction d generalizing k with
  | nil => simp [spread]
  | cons c d ih =>
    have hnext := ih (k + 1)
    rw [spread, List.length_append, List.length_cons]
    have hstep : (if k = 8 ∨ k = 12 ∨ k = 16 ∨ k = 20 then [dash, c] else [c]).length =
        if k = 8 ∨ k = 12 ∨ k = 16 ∨ k = 20 then 2 else 1 := by split <;> rfl
    rw [hstep, ← Nat.add_assoc, ← size_succ, hnext]
    congr 1
    omega

/-- The digits are read back. -/
theorem filter_spread (k : ℕ) {d : Bytes} (hd : ∀ c ∈ d, isLowerHex c = true) :
    (spread k d).filter (· ≠ dash) = d := by
  induction d generalizing k with
  | nil => rfl
  | cons c d ih =>
    have hc : c ≠ dash := by
      rintro rfl
      exact absurd (hd dash List.mem_cons_self) (by decide)
    rw [spread, List.filter_append, ih (k + 1) fun c h => hd c (List.mem_cons_of_mem _ h)]
    split
    · simp [hc]
    · simp [hc]

theorem mem_digits {t : Bytes} {c : UInt8} (h : c ∈ digits t) : isLowerHex c = true :=
  List.mem_takeWhile_imp (List.mem_of_mem_take h)

theorem uuid_endpoint_eq (t : Bytes) : uuid_endpoint (some t) =
    if (digits t).length = 32 then spread 0 (digits t) else [] := by
  have hloop : endpointLoop [] t = spread 0 (digits t) := endpointLoop_eq (by omega) rfl t
  have hlen := length_spread 0 (digits t)
  have hle : (digits t).length ≤ 32 := List.length_take_le ..
  have hsize : (spread 0 (digits t)).length = 36 ↔ (digits t).length = 32 := by
    rw [Nat.zero_add] at hlen
    have h0 : size 0 = 0 := rfl
    rw [h0, Nat.zero_add] at hlen
    rw [hlen, size]
    omega
  rw [uuid_endpoint, hloop]
  exact if_congr hsize rfl rfl

theorem digits_eq_take (t : Bytes) : digits t = (t.take 32).takeWhile isLowerHex :=
  List.take_takeWhile

theorem uuid_endpoint_ne_nil (t : Bytes) :
    uuid_endpoint (some t) ≠ [] ↔ (digits t).length = 32 := by
  rw [uuid_endpoint_eq]
  by_cases h : (digits t).length = 32
  · rw [if_pos h]
    refine iff_of_true (fun hnil => ?_) h
    have hlen := length_spread 0 (digits t)
    rw [hnil, h] at hlen
    exact absurd hlen (by decide)
  · rw [if_neg h]
    exact iff_of_false (fun hne => hne rfl) h

/-- The digits are the first 32 octets. -/
theorem take_of_digits {t : Bytes} (h : (digits t).length = 32) : t.take 32 = digits t := by
  rw [digits_eq_take] at h ⊢
  refine (List.IsPrefix.eq_of_length_le (List.takeWhile_prefix _) ?_).symm
  rw [h]
  exact List.length_take_le ..

theorem uuid_endpoint_inj {t t' : Bytes} (h : uuid_endpoint (some t) ≠ []) :
    uuid_endpoint (some t') = uuid_endpoint (some t) ↔ t'.take 32 = t.take 32 := by
  have hd := (uuid_endpoint_ne_nil t).1 h
  constructor
  · intro heq
    have hd' := (uuid_endpoint_ne_nil t').1 (heq ▸ h)
    rw [uuid_endpoint_eq, uuid_endpoint_eq, if_pos hd, if_pos hd'] at heq
    have hback := congrArg (List.filter (· ≠ dash)) heq
    rw [filter_spread 0 fun _ => mem_digits, filter_spread 0 fun _ => mem_digits] at hback
    rw [take_of_digits hd, take_of_digits hd', hback]
  · intro heq
    rw [uuid_endpoint_eq, uuid_endpoint_eq, digits_eq_take, digits_eq_take, heq]

/-- The machine-id that build stage 2 makes of random octets: `head -c16 | od -An -tx1 | tr -d ' \n'`. -/
def machine_id (urandom : Bytes) : Bytes :=
  (Tools.od (urandom.take 16)).filter fun c => c ≠ Panel.space ∧ c ≠ nl

theorem isLowerHex_digit : ∀ n < 16, isLowerHex (Tools.lowerHexDigit n) = true := by decide

theorem digits_machine_id {r : Bytes} (hr : 16 ≤ r.length) :
    machine_id r = (r.take 16).flatMap Tools.hexPair ∧ digits (machine_id r) = machine_id r ∧
      (machine_id r).length = 32 := by
  have hid : machine_id r = (r.take 16).flatMap Tools.hexPair := Tools.od_digits _
  have hlen : (machine_id r).length = 32 := by
    rw [hid, List.length_flatMap]
    simp [Tools.hexPair, hr]
  have hhex : ∀ c ∈ machine_id r, isLowerHex c = true := by
    intro c hc
    rw [hid] at hc
    obtain ⟨b, -, hc⟩ := List.mem_flatMap.1 hc
    have hb := b.toNat_lt
    simp only [Tools.hexPair, List.mem_cons, List.not_mem_nil, or_false] at hc
    rcases hc with rfl | rfl
    · exact isLowerHex_digit _ (by omega)
    · exact isLowerHex_digit _ (by omega)
  refine ⟨hid, ?_, hlen⟩
  rw [digits, List.takeWhile_eq_self_iff.2 hhex, ← hlen, List.take_length]

/-- **The box has an endpoint iff its machine-id begins with 32 hex digits; boxes have the same endpoint
iff these digits are the same; and the build makes of any 16 random octets a machine-id with an endpoint,
a different one for different octets.** -/
theorem endpoint_identity :
    (∀ t, uuid_endpoint (some t) ≠ [] ↔ 32 ≤ (t.takeWhile isLowerHex).length) ∧
      (∀ t t', uuid_endpoint (some t) ≠ [] →
        (uuid_endpoint (some t') = uuid_endpoint (some t) ↔ t'.take 32 = t.take 32)) ∧
      (∀ r, 16 ≤ r.length → uuid_endpoint (some (machine_id r)) ≠ []) ∧
      ∀ r r', 16 ≤ r.length → 16 ≤ r'.length →
        (uuid_endpoint (some (machine_id r')) = uuid_endpoint (some (machine_id r)) ↔
          r'.take 16 = r.take 16) := by
  have hmade : ∀ r : Bytes, 16 ≤ r.length → uuid_endpoint (some (machine_id r)) ≠ [] := by
    intro r hr
    obtain ⟨-, hd, hlen⟩ := digits_machine_id hr
    rw [uuid_endpoint_ne_nil, hd, hlen]
  refine ⟨fun t => ?_, fun t t' => uuid_endpoint_inj, hmade, fun r r' hr hr' => ?_⟩
  · rw [uuid_endpoint_ne_nil, digits, List.length_take]
    omega
  · obtain ⟨hid, -, hlen⟩ := digits_machine_id hr
    obtain ⟨hid', -, hlen'⟩ := digits_machine_id hr'
    rw [uuid_endpoint_inj (hmade r hr), List.take_of_length_le hlen.le, List.take_of_length_le hlen'.le,
      hid, hid']
    exact ⟨Tools.hexPairs_inj, fun h => by rw [h]⟩

/-! ## Boot parameters -/

/-- What an item without commas says: its key and its value, if it has both and no second colon. -/
def item (i : Bytes) : Option (Bytes × Bytes) :=
  let inKey := fun c => !isspace c && c ≠ colon && c ≠ comma
  let str := i.dropWhile isspace
  match str.dropWhile inKey with
  | [] => none
  | _ :: p =>
    let val := p.dropWhile isspace
    if colon ∈ val then none else some (str.takeWhile inKey, val)

theorem setFirst_isSome_iff (key v : Bytes) (table : List BootParam) :
    (setFirst key v table).isSome = true ↔ ∃ b ∈ table, keyMatches b.key key := by
  induction table with
  | nil => simp [setFirst]
  | cons b t ih =>
    unfold setFirst
    split
    · rename_i hm
      exact iff_of_true rfl ⟨b, .head _, hm⟩
    · rename_i hm
      rw [Option.isSome_map, ih]
      simp [hm]

/-- The keys stay. -/
theorem setFirst_keys {key v : Bytes} {table table' : List BootParam}
    (h : setFirst key v table = some table') : table'.map (·.key) = table.map (·.key) := by
  induction table generalizing table' with
  | nil => cases h
  | cons b t ih =>
    unfold setFirst at h
    split at h
    · cases h
      rfl
    · obtain ⟨t', ht, rfl⟩ := Option.map_eq_some_iff.1 h
      rw [List.map_cons, List.map_cons, ih ht]

/-- Where the value of an item without commas ends: at a colon, or with the item. -/
theorem value_end {val : Bytes} (h : comma ∉ val) :
    if colon ∈ val then ∃ q, (val.dropWhile fun c => c ≠ colon && c ≠ comma) = colon :: q
    else (val.dropWhile fun c => c ≠ colon && c ≠ comma) = [] := by
  split
  · rename_i hcol
    obtain ⟨d, q, hq⟩ : ∃ d q, (val.dropWhile fun c => c ≠ colon && c ≠ comma) = d :: q :=
      List.exists_cons_of_ne_nil fun hnil => by
        have hall := List.dropWhile_eq_nil_iff.1 hnil colon hcol
        simp at hall
    obtain ⟨hd, hdm, -⟩ := dropWhile_eq_cons hq
    have hne : d ≠ comma := fun he => h (he ▸ hdm)
    have hd' : d = colon := by simpa [hne] using hd
    exact ⟨q, hd' ▸ hq⟩
  · rename_i hcol
    refine List.dropWhile_eq_nil_iff.2 fun c hc => ?_
    have h1 : c ≠ colon := fun he => hcol (he ▸ hc)
    have h2 : c ≠ comma := fun he => h (he ▸ hc)
    simp [h1, h2]

/-- **An item before a comma**: the value is stored with the comma. -/
theorem set_getresp_comma {i : Bytes} (hi : comma ∉ i) (r : Bytes) (table : List BootParam) :
    match (item i).bind fun x => setFirst x.1 (x.2 ++ [comma]) table with
    | some table' => set_getresp (i ++ comma :: r) table = ⟨true, some r, table'⟩
    | none => (set_getresp (i ++ comma :: r) table).ok = false := by
  have hspace : isspace comma = false := by decide
  have hkey : (!isspace comma && comma ≠ colon && comma ≠ comma) = false := by decide
  unfold set_getresp item
  rw [dropWhile_stop hspace]
  have hstr : comma ∉ i.dropWhile isspace := fun h => hi ((List.dropWhile_suffix _).subset h)
  generalize i.dropWhile isspace = str at hstr
  have hdrop : ∀ p : UInt8 → Bool, p comma = false → ∀ t : Bytes,
      (t ++ comma :: r).drop ((t ++ comma :: r).takeWhile p).length = t.dropWhile p ++ comma :: r :=
    fun p hp t => (drop_length_takeWhile p _).trans (dropWhile_stop hp t r)
  dsimp only
  rw [if_neg (by simp), hdrop _ hkey,
    takeWhile_stop (p := fun c => !isspace c && c ≠ colon && c ≠ comma) hkey]
  cases hj : str.dropWhile fun c => !isspace c && c ≠ colon && c ≠ comma with
  | nil => rfl
  | cons c p =>
    obtain ⟨hc, hcm, hp⟩ := dropWhile_eq_cons hj
    have hc' : ¬ ((!isspace c && decide (c ≠ colon)) = true) := by
      have hne : c ≠ comma := fun h => hstr (h ▸ hcm)
      simpa [hne] using hc
    have hval : comma ∉ p.dropWhile isspace := fun h => hstr (hp ((List.dropWhile_suffix _).subset h))
    rw [List.cons_append]
    dsimp only
    rw [if_neg hc', dropWhile_stop hspace]
    generalize p.dropWhile isspace = val at hval
    have hend := value_end hval
    rw [hdrop (fun c => c ≠ colon && c ≠ comma) (by decide) val]
    by_cases hcol : colon ∈ val
    · -- the second colon is there before the comma
      rw [if_pos hcol] at hend ⊢
      obtain ⟨q, hq⟩ := hend
      rw [hq, List.cons_append]
      dsimp only [Option.bind_none]
      split
      · rfl
      · rfl
    · rw [if_neg hcol] at hend
      have hall := List.dropWhile_eq_nil_iff.1 hend
      have htake : (val ++ comma :: r).take (val.length + 1) = val ++ [comma] := by
        rw [List.take_append, List.take_of_length_le (by omega), Nat.add_sub_cancel_left]
        rfl
      have hhead : ¬ (val ++ comma :: r = [] ∨ (val ++ comma :: r).head? = some colon) := by
        cases val with
        | nil => simp [show comma ≠ colon by decide]
        | cons d v =>
          have hd : d ≠ colon := fun h => hcol (h ▸ .head _)
          simp [hd]
      rw [if_neg hcol, if_neg hhead, takeWhile_stop (by decide), List.takeWhile_eq_self_iff.2 hall,
        hend, htake]
      simp only [List.nil_append, List.head?_cons, List.tail_cons, Option.bind_some,
        show ¬ some comma = some colon by decide, List.cons_ne_nil, if_false]
      cases setFirst (str.takeWhile fun c => !isspace c && c ≠ colon && c ≠ comma) (val ++ [comma])
        table with
      | none => rfl
      | some table' => rfl

/-- An item without a comma: the last one. -/
theorem set_getresp_last {i : Bytes} (hi : comma ∉ i) (table : List BootParam) :
    (i.dropWhile isspace = [] → set_getresp i table = ⟨true, some [], table⟩) ∧
    (i.dropWhile isspace ≠ [] → (set_getresp i table).ok = false ∨
      (set_getresp i table).next = none) := by
  unfold set_getresp
  refine ⟨fun h => ?_, fun h => ?_⟩
  · dsimp only
    rw [if_pos h, h]
  · dsimp only
    rw [if_neg h]
    have hstr : comma ∉ i.dropWhile isspace := fun h => hi ((List.dropWhile_suffix _).subset h)
    generalize i.dropWhile isspace = str at hstr
    rw [drop_length_takeWhile]
    split
    · exact .inl rfl
    · rename_i c p hj
      obtain ⟨-, -, hp⟩ := dropWhile_eq_cons hj
      split
      · exact .inl rfl
      split
      · exact .inl rfl
      split
      · exact .inl rfl
      rename_i hcol
      have hend := value_end fun h => hstr (hp ((List.dropWhile_suffix isspace).subset h))
      rw [drop_length_takeWhile] at hcol ⊢
      split at hend
      · obtain ⟨q, hq⟩ := hend
        rw [hq] at hcol
        exact absurd rfl hcol
      rw [hend]
      split
      · exact .inl rfl
      · exact .inr rfl

/-- The item is taken: it says a key and a value, and the key begins one of the table's. -/
def Takes (table : List BootParam) (i : Bytes) : Prop :=
  ∃ x, item i = some x ∧ ∃ b ∈ table, keyMatches b.key x.1

theorem Takes.of_keys {table table' : List BootParam} (h : table'.map (·.key) = table.map (·.key))
    {i : Bytes} (ht : Takes table i) : Takes table' i := by
  obtain ⟨x, hx, b, hb, hm⟩ := ht
  have hk : b.key ∈ table'.map (·.key) := h ▸ List.mem_map_of_mem hb
  obtain ⟨b', hb', he⟩ := List.mem_map.1 hk
  exact ⟨x, hx, b', hb', he ▸ hm⟩

/-- A taken item leaves the loop where its comma is, any other ends it. -/
theorem bootOption_comma {i : Bytes} (hi : comma ∉ i) (r : Bytes) (table : List BootParam) :
    (Takes table i ∧ ∃ table', table'.map (·.key) = table.map (·.key) ∧
      ∀ n, bootOption (n + 1) (some (i ++ comma :: r)) table = bootOption n (some r) table') ∨
    (¬ Takes table i ∧ ∀ n, (bootOption (n + 1) (some (i ++ comma :: r)) table).isSome = true) := by
  have hs := set_getresp_comma hi r table
  cases hb : (item i).bind fun x => setFirst x.1 (x.2 ++ [comma]) table with
  | some table' =>
    rw [hb] at hs
    obtain ⟨x, hx, hf⟩ := Option.bind_eq_some_iff.1 hb
    have hkey := (setFirst_isSome_iff _ _ _).1 (Option.isSome_iff_exists.2 ⟨_, hf⟩)
    refine .inl ⟨⟨x, hx, hkey⟩, table', setFirst_keys hf, ?_⟩
    intro n
    rw [bootOption, hs]
    rfl
  | none =>
    rw [hb] at hs
    refine .inr ⟨fun ⟨x, hx, hm⟩ => ?_, fun n => ?_⟩
    · have hsome := (setFirst_isSome_iff x.1 (x.2 ++ [comma]) table).2 hm
      rw [hx, Option.bind_some] at hb
      rw [hb] at hsome
      cases hsome
    · rw [bootOption, if_neg (by simp [hs])]
      rfl

/-- A blank text is read again and again. -/
theorem bootOption_blank (n : ℕ) {t : Bytes} (h : t.dropWhile isspace = [])
    (table : List BootParam) : bootOption n (some t) table = none := by
  induction n generalizing t with
  | zero => rfl
  | succ n ih =>
    have hs : set_getresp t table = ⟨true, some [], table⟩ := by
      unfold set_getresp
      dsimp only
      rw [if_pos h, h]
    rw [bootOption, hs]
    exact ih rfl

/-- **The loop of the option `-b` never ends just when** its text is a list of items, each with its comma
and all of them taken, and nothing but space behind them. -/
theorem bootOption_hangs_iff (t : Bytes) (table : List BootParam) :
    (∀ n, bootOption n (some t) table = none) ↔ ∃ items last, t = terminate comma items ++ last ∧
      (∀ i ∈ items, comma ∉ i ∧ Takes table i) ∧ last.dropWhile isspace = [] := by
  constructor
  · intro h
    induction hn : t.length using Nat.strong_induction_on generalizing t table with
    | _ k ih =>
      by_cases hc : comma ∈ t
      · obtain ⟨i, r, rfl, hi⟩ := List.eq_append_cons_of_mem hc
        obtain ⟨ht, table', hk, hgo⟩ | ⟨-, hend⟩ := bootOption_comma hi r table
        · have hlt : r.length < k := by
            rw [← hn, List.length_append, List.length_cons]
            omega
          obtain ⟨items, last, rfl, hitems, hlast⟩ :=
            ih _ hlt r table' (fun n => (hgo n).symm.trans (h (n + 1))) rfl
          refine ⟨i :: items, last, by simp, List.forall_mem_cons.2 ⟨⟨hi, ht⟩, fun j hj => ?_⟩, hlast⟩
          exact (hitems j hj).imp_right (Takes.of_keys hk.symm)
        · have hsome := hend 0
          rw [h 1] at hsome
          cases hsome
      · refine ⟨[], t, rfl, fun _ hi => absurd hi List.not_mem_nil, ?_⟩
        by_contra hne
        have h2 := h 2
        rw [bootOption] at h2
        rcases (set_getresp_last hc table).2 hne with hok | hnext
        · rw [if_neg (by simp [hok])] at h2
          cases h2
        · rw [hnext] at h2
          split at h2 <;> cases h2
  · rintro ⟨items, last, rfl, hitems, hlast⟩ n
    induction items generalizing n table with
    | nil => exact bootOption_blank n hlast table
    | cons i items ih =>
      obtain ⟨⟨hi, ht⟩, hitems⟩ := List.forall_mem_cons.1 hitems
      cases n with
      | zero => rfl
      | succ n =>
        have htext : terminate comma (i :: items) ++ last =
            i ++ comma :: (terminate comma items ++ last) := by simp
        rw [htext]
        obtain ⟨-, table', hk, hgo⟩ | ⟨hno, -⟩ :=
          bootOption_comma hi (terminate comma items ++ last) table
        · rw [hgo]
          exact ih _ (fun j hj => (hitems j hj).imp_right (Takes.of_keys hk)) n
        · exact absurd ht hno

/-- The table of boot parameters is read safely just when the file has no blank line. -/
theorem init_getresp_fault_iff (ls : List Bytes) (table : List BootParam) :
    (∃ f, init_getresp ls table = .error f) ↔ ∃ l ∈ ls, l.dropWhile isspace = [] := by
  induction ls generalizing table with
  | nil => exact iff_of_false (fun ⟨f, h⟩ => by cases h) fun ⟨l, h, _⟩ => absurd h List.not_mem_nil
  | cons l ls ih =>
    unfold init_getresp
    split
    · rename_i hl
      exact iff_of_true ⟨_, rfl⟩ ⟨l, .head _, hl⟩
    · rename_i hl
      rw [ih, List.exists_mem_cons_iff, or_iff_right hl]

/-! ## Samba parameters -/

/-- A value that fits the buffer and has no space at its ends is taken as `testparm` prints it. -/
theorem get_smbparm_line {v : Bytes} (hv : ∀ c ∈ v, c ≠ 0 ∧ c ≠ nl) (hlen : v.length < 79)
    (hhead : ∀ c ∈ v.head?, isspace c = false) (hlast : ∀ c ∈ v.getLast?, isspace c = false)
    (rest _default : Bytes) :
    get_smbparm (v ++ nl :: rest) _default = if v = [] then _default else v := by
  have hline : (v ++ nl :: rest).takeWhile (· ≠ nl) = v := by
    rw [takeWhile_stop (by decide), List.takeWhile_eq_self_iff]
    exact fun c hc => decide_eq_true (hv c hc).2
  have hbuf : cstr ((v ++ [nl]).take (min 79 (v ++ nl :: rest).length)) = v ++ [nl] := by
    rw [List.take_of_length_le (by simp; omega)]
    refine List.takeWhile_eq_self_iff.2 fun c hc => decide_eq_true ?_
    rcases List.mem_append.1 hc with hc | hc
    · exact (hv c hc).1
    · rw [List.mem_singleton.1 hc]
      decide
  unfold get_smbparm
  rw [hline, hbuf]
  cases v with
  | nil => rfl
  | cons d v =>
    have hd : d ≠ nl := (hv d (.head _)).2
    have hdrop : (d :: v ++ [nl]).rdropWhile isspace = d :: v := by
      rw [List.rdropWhile_concat_pos _ _ _ (by decide), List.rdropWhile_eq_self_iff]
      intro hne
      rw [hlast _ (List.getLast?_eq_some_getLast hne)]
      decide
    dsimp only
    rw [if_neg (by simp [hd]), hdrop, if_neg (List.cons_ne_nil _ _),
      List.dropWhile_cons_of_neg (by simp [hhead d rfl])]

end Wsdd
