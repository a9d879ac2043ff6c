import MyCloud.Cgi.Pages
import MyCloud.Cgi.Proof.Form
import MyCloud.Panel.Proof.Change
import MyCloud.Panel.Proof.SpecUsers

/-!
# A password on its way to `smbpasswd`

* `readPass_passLine`: what `panel-op` reads of a posted password is its first line.
* `user_pass_eval`: `user-pass` of an SMB account as one equation.
* `password_faithful_iff`: the reply is OK with the posted password set, or ERR with the old one
  kept, iff the password has no newline or the call is refused.
-/

set_option autoImplicit false

namespace Cgi

open Shell Panel Script

variable {e : Env} {w : World} {v u : Bytes}

/-! ## The first line -/

def firstLine (v : Bytes) : Bytes := v.takeWhile (· ≠ nl)

theorem firstLine_append_nl (t : Bytes) : firstLine (t ++ [nl]) = firstLine t := by
  induction t with
  | nil => rfl
  | cons c t ih =>
    simp only [firstLine, List.cons_append, List.takeWhile_cons] at ih ⊢
    rw [ih]

/-- `$(...)` keeps the first line. -/
theorem firstLine_subst (h0 : 0 ∉ v) : firstLine (subst v) = firstLine v := by
  induction v using List.reverseRecOn with
  | nil => rfl
  | append_singleton t c ih =>
    have ht : 0 ∉ t := fun h => h0 (List.mem_append_left _ h)
    by_cases hc : c = nl
    · subst hc
      rw [subst_newline, ih ht, firstLine_append_nl]
    · rw [subst_eq h0 (by simpa using hc)]

theorem firstLine_eq_iff : firstLine v = v ↔ nl ∉ v := by
  rw [firstLine, List.takeWhile_eq_self_iff]
  constructor
  · intro h hm
    simpa using h nl hm
  · rintro h c hc
    exact decide_eq_true fun he : c = nl => h (he ▸ hc)

/-- **`panel-op` reads the first line of the posted password.** -/
theorem readPass_passLine (h0 : 0 ∉ v) : readPass (passLine (subst v)) = firstLine v := by
  have hz : 0 ∉ firstLine v := fun h => h0 ((List.takeWhile_sublist _).subset h)
  have hf : (passLine (subst v)).takeWhile (· ≠ nl) = firstLine v := by
    rw [← firstLine_subst h0]
    exact firstLine_append_nl (subst v)
  rw [readPass, if_pos (by simp [passLine]), hf]
  exact List.filter_eq_self.2 fun c hc => decide_eq_true fun he : c = 0 => hz (he ▸ hc)

/-! ## The reply -/

/-- The command that sets the password, or removes it. -/
def passCommand (u p : Bytes) : Cmd := if p ≠ [] then .smbpasswdSet u (twice p) else .smbpasswdNull u

/-- The password of an SMB account, none for an empty one. -/
def stored (p : Bytes) : Option Bytes := if p ≠ [] then some p else none

theorem stored_inj {p q : Bytes} : stored p = stored q ↔ p = q := by
  unfold stored
  split <;> split <;> simp_all

/-- `user-pass` of a valid name that has an SMB account. -/
theorem user_pass_eval (hn : nameRe u = true) (hu : u ∈ w.passdb) (stdin : Bytes) :
    (user_pass [u] stdin).eval (exec e) w =
      if readPass stdin ≠ [] ∧ (readPass stdin).length < 4 then
        (.error (bytes "password too short (min 4 chars, or blank for none)"), w)
      else if e.ok .pdbedit = false then (.error (bytes "no such SMB user"), w)
      else if e.ok (passCommand u (readPass stdin)) = false then
        (.error (bytes "smbpasswd failed"), w)
      else (.ok (if readPass stdin ≠ [] then bytes "OK: password set for " ++ u
          else bytes "OK: " ++ u ++ bytes " now has no password"),
        w.setPassword u (stored (readPass stdin))) := by
  rw [user_pass_exec (show nameRe (arg [u] 0) = true from hn), show arg [u] 0 = u from rfl]
  simp only [hu, and_true, Bool.not_eq_true]
  by_cases hp : readPass stdin = []
  · simp only [hp, ne_eq, not_true_eq_false, false_and, if_false, passCommand, stored]
    cases e.ok (.smbpasswdNull u) <;> simp
  · simp only [ne_eq, hp, not_false_eq_true, true_and, if_true, passCommand, stored]
    cases e.ok (.smbpasswdSet u (twice (readPass stdin))) <;> simp

/-! ## From the form to the store -/

/-- The form of the action: `u` is the posted name, `v` the posted password. -/
structure PassForm (ps : Fields) (u v : Bytes) : Prop where
  keys : ∀ p ∈ ps, isKey p.1
  action : value ps (bytes "action") = bytes "pass"
  name : value ps (bytes "name") = u
  pass : value ps (bytes "pass") = v

theorem users_cgi_pass {ps : Fields} (hps : PassForm ps u v) (hu : nl ∉ u ∧ 0 ∉ u) :
    users_cgi e (formPost ps) w =
      (some ((⟨.userPass, [u], passLine (subst v)⟩ : Call).exec e w).1,
        ((⟨.userPass, [u], passLine (subst v)⟩ : Call).exec e w).2) := by
  have hget : ∀ k : String, isKey (bytes k) →
      (formPost ps).get k = subst (value ps (bytes k)) := fun k hk => field_post hk hps.keys
  have hact : (formPost ps).get "action" = bytes "pass" := by
    rw [hget _ (by decide), hps.action]
    decide
  have hname : (formPost ps).get "name" = u := by
    rw [hget _ (by decide), hps.name]
    exact subst_eq hu.2 fun h => hu.1 (List.mem_of_getLast? h)
  have hpass : (formPost ps).get "pass" = subst v := by rw [hget _ (by decide), hps.pass]
  have hadd : bytes "pass" ≠ bytes "add" := by decide
  have hargv : Call.ofArgv [bytes "user-pass", u] (passLine (subst v)) =
      ⟨.userPass, [u], passLine (subst v)⟩ := rfl
  have hmethod : (formPost ps).method = POST := rfl
  simp only [users_cgi, if_pos hmethod, users_post, hact, hname, hpass, hadd, if_true, if_false,
    sudo_op, hargv]

/-- What is promised of the action: ERR with the password kept, or OK with the posted one set. -/
def Faithful (u v : Bytes) (w : World) (r : Option (Except Bytes Bytes) × World) : Prop :=
  (∃ m, r.1 = some (.error m) ∧ r.2.passdb.lookup u = w.passdb.lookup u) ∨
    ∃ m, r.1 = some (.ok m) ∧ r.2.passdb.lookup u = some (stored v)

/-- The call goes through: name and password are accepted, and the commands work. -/
def Taken (e : Env) (u p : Bytes) : Prop :=
  nameRe u = true ∧ ¬ (p ≠ [] ∧ p.length < 4) ∧ e.ok .pdbedit = true ∧ e.ok (passCommand u p) = true

/-- **The posted password is stored or refused iff** it has no newline or the call does not go
through with its first line. -/
theorem password_faithful_iff {ps : Fields} (hps : PassForm ps u v) (hu : nl ∉ u ∧ 0 ∉ u)
    (hv : 0 ∉ v) (e : Env) {w : World} (hw : u ∈ w.passdb) :
    Faithful u v w (users_cgi e (formPost ps) w) ↔ nl ∉ v ∨ ¬ Taken e u (firstLine v) := by
  have hread := readPass_passLine hv
  rw [users_cgi_pass hps hu]
  change Faithful u v w (some ((user_pass [u] (passLine (subst v))).eval (exec e) w).1,
    ((user_pass [u] (passLine (subst v))).eval (exec e) w).2) ↔ _
  -- refused with the state as it was
  have hrefused : ∀ {r : Except Bytes Bytes × World} {m : Bytes}, r = (.error m, w) →
      Faithful u v w (some r.1, r.2) := by
    rintro _ m rfl
    exact .inl ⟨m, rfl, rfl⟩
  by_cases hn : nameRe u = true
  swap
  · have herr := (need_name_err (e := e) (w := w) (a := u)).2 ⟨by simpa using hn, rfl, rfl⟩
    exact iff_of_true (hrefused (eval_bind_error.2 (.inl herr))) (.inr fun h => hn h.1)
  rw [user_pass_eval hn hw, hread]
  by_cases hs : firstLine v ≠ [] ∧ (firstLine v).length < 4
  · rw [if_pos hs]
    exact iff_of_true (hrefused rfl) (.inr fun h => h.2.1 hs)
  rw [if_neg hs]
  by_cases hp : e.ok .pdbedit = false
  · rw [if_pos hp]
    exact iff_of_true (hrefused rfl) (.inr fun h => Bool.false_ne_true (hp.symm.trans h.2.2.1))
  rw [if_neg hp]
  by_cases hk : e.ok (passCommand u (firstLine v)) = false
  · rw [if_pos hk]
    exact iff_of_true (hrefused rfl) (.inr fun h => Bool.false_ne_true (hk.symm.trans h.2.2.2))
  rw [if_neg hk]
  -- stored: the first line
  have htaken : Taken e u (firstLine v) := ⟨hn, hs, by simpa using hp, by simpa using hk⟩
  simp only [htaken, not_true_eq_false, or_false, ← firstLine_eq_iff (v := v)]
  simp only [Faithful, World.setPassword, AList.lookup_insert, reduceCtorEq, false_and,
    exists_false, false_or, Option.some.injEq, Except.ok.injEq, exists_eq_left', stored_inj]

/-- A password of one line is stored. -/
theorem password_faithful_bob :
    let w := (stage3World ∅).setPassword (bytes "bob") none
    let v := bytes " s3 cret\\"
    let ps := [(bytes "action", bytes "pass"), (bytes "name", bytes "bob"), (bytes "pass", v)]
    Faithful (bytes "bob") v w (users_cgi allOk (formPost ps) w) := by
  intro w v ps
  have hps : PassForm ps (bytes "bob") v := ⟨by decide, by decide, by decide, by decide⟩
  exact (password_faithful_iff hps (by decide) (by decide) allOk (by decide)).2 (.inl (by decide))

/-- A posted password that begins with a newline removes bob's password; one with a newline later
is cut there. -/
theorem password_cut_bob :
    let w := (stage3World ∅).setPassword (bytes "bob") (some (bytes "old secret"))
    let form := fun v => formPost
      [(bytes "action", bytes "pass"), (bytes "name", bytes "bob"), (bytes "pass", v)]
    ¬ Faithful (bytes "bob") (bytes "\nsecret") w (users_cgi allOk (form (bytes "\nsecret")) w) ∧
      ¬ Faithful (bytes "bob") (bytes "secret\nword") w
        (users_cgi allOk (form (bytes "secret\nword")) w) := by
  intro w form
  have h1 : (users_cgi allOk (form (bytes "\nsecret")) w).2.passdb.lookup (bytes "bob") =
      some none := by decide +kernel
  have h2 : (users_cgi allOk (form (bytes "secret\nword")) w).2.passdb.lookup (bytes "bob") =
      some (some (bytes "secret")) := by decide +kernel
  have hw : w.passdb.lookup (bytes "bob") = some (some (bytes "old secret")) := by decide
  constructor
  · rintro (⟨m, -, h⟩ | ⟨m, -, h⟩)
    · rw [h1, hw] at h
      revert h; decide
    · rw [h1] at h
      revert h; decide
  · rintro (⟨m, -, h⟩ | ⟨m, -, h⟩)
    · rw [h2, hw] at h
      revert h; decide
    · rw [h2] at h
      revert h; decide

end Cgi
