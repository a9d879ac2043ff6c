import MyCloud.Cgi.Lib

/-!
# Form decoding undoes form encoding

`formBody ps` is the body a browser posts for the fields `ps`
(`application/x-www-form-urlencoded`).

* `urldecode_encode`: one value is read back, whatever its bytes.
* `records_pieces`: the split at `&` undoes the join.
* `getv_post`: `getv` prints the value of the first pair with the key.
* `decode_encode`: **what a page reads is the value that was posted.**
-/

set_option autoImplicit false

namespace Cgi

open Shell

/-! ## The encoding -/

/-- Letters, digits, `*`, `-`, `.` and `_` stand for themselves. -/
def isKept (c : UInt8) : Bool :=
  ('a'.toUInt8 ≤ c && c ≤ 'z'.toUInt8) || ('A'.toUInt8 ≤ c && c ≤ 'Z'.toUInt8) ||
  ('0'.toUInt8 ≤ c && c ≤ '9'.toUInt8) || "*-._".toByteArray.data.toList.contains c

def encodeByte (c : UInt8) : Bytes :=
  if isKept c then [c]
  else if c = blank then [plus]
  else [percent, hexDigit (c.toNat / 16), hexDigit (c.toNat % 16)]

def encode (v : Bytes) : Bytes := v.flatMap encodeByte

abbrev Fields := List (Bytes × Bytes)

/-- `key=value`. -/
def piece (p : Bytes × Bytes) : Bytes := encode p.1 ++ equals :: encode p.2

def formBody (ps : Fields) : Bytes := List.intercalate [ampersand] (ps.map piece)

/-- The form, posted with its length. -/
def formPost (ps : Fields) : Request := ⟨POST, some (formBody ps).length, formBody ps⟩

def isKey (k : Bytes) : Prop := ∀ c ∈ k, 'a'.toUInt8 ≤ c ∧ c ≤ 'z'.toUInt8

instance (k : Bytes) : Decidable (isKey k) := List.decidableBAll _ _

/-- The value of the first pair with the key, empty if there is none. -/
def value (ps : Fields) (k : Bytes) : Bytes := (ps.lookup k).getD []

/-! ## One value -/

theorem urldecode_cons_kept {c : UInt8} (h : isKept c = true) (s : Bytes) :
    urldecode (c :: s) = c :: urldecode s := by
  have hp : c ≠ plus := by rintro rfl; revert h; decide
  have hq : c ≠ percent := by rintro rfl; revert h; decide
  have hb : c ≠ backslash := by rintro rfl; revert h; decide
  simp only [urldecode, List.map_cons, List.flatMap_cons, hp, if_false, hq, List.cons_append,
    List.nil_append, expand_plain hb]

theorem urldecode_plus (s : Bytes) : urldecode (plus :: s) = blank :: urldecode s := by
  have hq : blank ≠ percent := by decide
  simp only [urldecode, List.map_cons, List.flatMap_cons, if_true, hq, if_false, List.cons_append,
    List.nil_append, expand_plain (show blank ≠ backslash by decide)]

theorem hexDigit_plain : ∀ n < 16, hexDigit n ≠ plus ∧ hexDigit n ≠ percent := by decide

theorem urldecode_percent (b : UInt8) (s : Bytes) :
    urldecode (percent :: hexDigit (b.toNat / 16) :: hexDigit (b.toNat % 16) :: s) =
      b :: urldecode s := by
  have hb : b.toNat < 256 := b.toNat_lt
  obtain ⟨h1, h2⟩ := hexDigit_plain (b.toNat / 16) (by omega)
  obtain ⟨h3, h4⟩ := hexDigit_plain (b.toNat % 16) (by omega)
  have hp : percent ≠ plus := by decide
  have hx : bytes "\\x" = [backslash, 'x'.toUInt8] := by decide
  simp only [urldecode, List.map_cons, List.flatMap_cons, h1, h2, h3, h4, hp, hx, if_true, if_false,
    List.cons_append, List.nil_append, expand_hex]

/-- **A value is read back, whatever its bytes.** -/
theorem urldecode_encode (v : Bytes) : urldecode (encode v) = v := by
  induction v with
  | nil => rfl
  | cons c v ih =>
    change urldecode (encodeByte c ++ encode v) = c :: v
    unfold encodeByte
    split
    · rename_i hk
      rw [List.singleton_append, urldecode_cons_kept hk, ih]
    · split
      · rename_i hb
        rw [List.singleton_append, urldecode_plus, ih, hb]
      · rw [List.cons_append, List.cons_append, List.cons_append, List.nil_append,
          urldecode_percent, ih]

/-! ## The bytes of an encoding -/

/-- A byte of an encoded value: none of the separators, no NUL, no newline. -/
def Safe (c : UInt8) : Prop := c ≠ ampersand ∧ c ≠ equals ∧ c ≠ nl ∧ c ≠ 0

instance (c : UInt8) : Decidable (Safe c) := inferInstanceAs (Decidable (_ ∧ _))

theorem safe_hexDigit : ∀ n < 16, Safe (hexDigit n) := by decide

theorem safe_kept {c : UInt8} (h : isKept c = true) : Safe c := by
  refine ⟨?_, ?_, ?_, ?_⟩ <;> · rintro rfl; revert h; decide

theorem safe_encode {v : Bytes} {c : UInt8} (h : c ∈ encode v) : Safe c := by
  obtain ⟨b, -, h⟩ := List.mem_flatMap.1 h
  have hb : b.toNat < 256 := b.toNat_lt
  unfold encodeByte at h
  split at h
  · rename_i hk
    rw [List.mem_singleton.1 h]
    exact safe_kept hk
  · split at h
    · rw [List.mem_singleton.1 h]
      decide
    · simp only [List.mem_cons, List.not_mem_nil, or_false] at h
      rcases h with rfl | rfl | rfl
      · decide
      · exact safe_hexDigit _ (by omega)
      · exact safe_hexDigit _ (by omega)

theorem encode_key {k : Bytes} (h : isKey k) : encode k = k := by
  have hk : ∀ c ∈ k, encodeByte c = [c] := fun c hc => by
    have := h c hc
    simp [encodeByte, isKept, this]
  rw [encode, List.flatMap_congr hk]
  simp

/-! ## The split -/

theorem piece_ne_nil (p : Bytes × Bytes) : piece p ≠ [] := by simp [piece]

theorem mem_piece {p : Bytes × Bytes} {c : UInt8} (h : c ∈ piece p) : c = equals ∨ Safe c := by
  rcases List.mem_append.1 h with h | h
  · exact .inr (safe_encode h)
  · exact (List.mem_cons.1 h).imp_right safe_encode

/-- **The split at `&` undoes the join.** -/
theorem records_pieces (ps : Fields) :
    records nl ((formBody ps).map fun c => if c = ampersand then nl else c) = ps.map piece := by
  have hpiece : ∀ p : Bytes × Bytes,
      (piece p).map (fun c => if c = ampersand then nl else c) = piece p := fun p => by
    refine List.map_congr_left (g := id) (fun c hc => if_neg ?_) |>.trans (List.map_id _)
    rintro rfl
    rcases mem_piece hc with h | h
    · exact absurd h (by decide)
    · exact h.1 rfl
  have hmap : (ps.map piece).map (List.map fun c => if c = ampersand then nl else c) =
      ps.map piece := by
    rw [List.map_map]
    exact List.map_congr_left fun p _ => hpiece p
  rw [formBody, map_intercalate, hmap, List.map_singleton, if_pos rfl, records_intercalate]
  intro l hl
  obtain ⟨p, -, rfl⟩ := List.mem_map.1 hl
  refine ⟨fun h => ?_, piece_ne_nil p⟩
  rcases mem_piece h with h | h
  · exact absurd h (by decide)
  · exact h.2.2.1 rfl

theorem read_post_formPost (ps : Fields) : read_post (formPost ps) = formBody ps := by
  have hbody : ∀ c ∈ formBody ps, c ≠ 0 ∧ c ≠ nl := fun c hc => by
    rcases mem_intercalate hc with rfl | ⟨m, hm, hc⟩
    · decide
    · obtain ⟨p, -, rfl⟩ := List.mem_map.1 hm
      rcases mem_piece hc with rfl | h
      · decide
      · exact ⟨h.2.2.2, h.2.2.1⟩
  rw [read_post, formPost, if_pos rfl]
  refine (subst_eq (fun h => ?_) fun h => ?_).trans ?_
  · exact (hbody 0 (List.mem_of_mem_take h)).1 rfl
  · exact (hbody nl (List.mem_of_mem_take (List.mem_of_getLast? h))).2 rfl
  · exact List.take_length

/-! ## One field -/

theorem equals_notMem {k : Bytes} (h : isKey k) : equals ∉ k := fun hm => by
  have := h _ hm
  revert this
  decide

theorem sedField_piece {k k' : Bytes} (hk : isKey k) (hk' : isKey k') (v : Bytes) :
    sedField k (piece (k', v)) = if k = k' then some (encode v) else none := by
  have hp : k ++ [equals] <+: k' ++ equals :: encode v ↔ k = k' := by
    simpa using append_sep_prefix_iff (equals_notMem hk) (equals_notMem hk') (x := []) (y := encode v)
  simp only [sedField, piece, encode_key hk', hp]
  split
  · rename_i h
    subst h
    simp
  · rfl

theorem filterMap_pieces {ps : Fields} {k : Bytes} (hk : isKey k) (hps : ∀ p ∈ ps, isKey p.1) :
    ((ps.map piece).filterMap (sedField k)).take 1 = ((ps.lookup k).map encode).toList := by
  induction ps with
  | nil => rfl
  | cons p ps ih =>
    obtain ⟨k', v⟩ := p
    have ih := ih fun p hp => hps p (List.mem_cons_of_mem _ hp)
    rw [List.map_cons, List.filterMap_cons, sedField_piece hk (hps _ List.mem_cons_self),
      List.lookup_cons]
    by_cases h : k = k'
    · simp [h]
    · rw [if_neg h, beq_eq_false_iff_ne.2 h]
      exact ih

theorem rawField_post {ps : Fields} {k : Bytes} (hk : isKey k) (hps : ∀ p ∈ ps, isKey p.1) :
    rawField (formBody ps) k = encode (value ps k) := by
  rw [rawField, records_pieces, filterMap_pieces hk hps, value]
  cases ps.lookup k with
  | none => rfl
  | some v =>
    change subst (terminate nl [encode v]) = encode v
    rw [terminate_cons, terminate_nil, subst_newline, subst_eq]
    · exact fun h => (safe_encode h).2.2.2 rfl
    · exact fun h => (safe_encode (List.mem_of_getLast? h)).2.2.1 rfl

/-- **`getv` prints the value of the first pair with the key.** -/
theorem getv_post {ps : Fields} {k : Bytes} (hk : isKey k) (hps : ∀ p ∈ ps, isKey p.1) :
    getv (read_post (formPost ps)) k = value ps k := by
  rw [read_post_formPost, getv, rawField_post hk hps, urldecode_encode]

theorem field_post {ps : Fields} {k : Bytes} (hk : isKey k) (hps : ∀ p ∈ ps, isKey p.1) :
    field (read_post (formPost ps)) k = subst (value ps k) := by
  rw [field, getv_post hk hps]

/-- **What a page reads of a form is what was posted**, and nothing where the form has no such
field. -/
theorem decode_encode {ps : Fields} (hps : ∀ p ∈ ps, isKey p.1)
    (hv : ∀ p ∈ ps, 0 ∉ p.2 ∧ p.2.getLast? ≠ some nl) {k : Bytes} (hk : isKey k) :
    field (read_post (formPost ps)) k = (ps.lookup k).getD [] := by
  rw [field_post hk hps, value]
  cases h : ps.lookup k with
  | none => rfl
  | some v =>
    obtain ⟨l₁, l₂, rfl, -⟩ := List.lookup_eq_some_iff.1 h
    obtain ⟨h0, hl⟩ := hv (k, v) (by simp)
    exact subst_eq h0 hl

def awkward : Bytes := bytes "100% a\\x41+b&c=d\né"

theorem decode_encode_awkward :
    field (read_post (formPost [(bytes "name", bytes "bob"), (bytes "pass", awkward),
      (bytes "pass", bytes "second")])) (bytes "pass") = awkward :=
  decode_encode (by decide) (by decide) (by decide)

end Cgi
