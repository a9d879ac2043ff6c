import MyCloud.Panel.Proof.Change
import MyCloud.Panel.Proof.Conf

/-!
# The sections the box can have

From stage 3 on, and as long as no command of the panel fails, every section of smb.conf is one that
stage 3 wrote or one that `share_add_block` wrote (`knownConf_exec`).
-/

set_option autoImplicit false

namespace Panel

open Shell

/-- A section of stage 3, or one written by `share_add_block`. -/
inductive Known : Line × List Line → Prop
  | stage3Global : Known (header (bytes "global"), globalLines)
  | stage3Public : Known (header (bytes "public"), publicLines)
  | stage3Alpha : Known (header alpha, alphaLines)
  | share {n o : Bytes} {typ : ShareType} (hn : nameRe n = true)
      (ho : typ = .priv → nameRe o = true) : Known (header n, shareLines n typ o)

/-- The sections are known, and no name is there twice. -/
structure KnownConf (t : Bytes) : Prop where
  known : ∀ s ∈ sections t, Known s
  distinct : Distinct t

theorem Known.header {s : Line × List Line} (h : Known s) :
    ∃ n, ']'.toUInt8 ∉ n ∧ s.1 = Panel.header n := by
  cases h with
  | stage3Global => exact ⟨_, by decide, rfl⟩
  | stage3Public => exact ⟨_, by decide, rfl⟩
  | stage3Alpha => exact ⟨alpha, by decide, rfl⟩
  | share hn => exact ⟨_, nameRe_close hn, rfl⟩

theorem KnownConf.exactHeaders {t : Bytes} (h : KnownConf t) : ExactHeaders t :=
  exactHeaders_iff.2 fun s hs => (h.known s hs).header

theorem KnownConf.add {t n o : Bytes} {typ : ShareType} (h : KnownConf t) (hn : nameRe n = true)
    (ho : typ = .priv → nameRe o = true) (hh : hasHeader n t = false) :
    KnownConf (t ++ shareBlock n typ o) := by
  have ho' : typ = .priv → nl ∉ o := fun hp => nameRe_nl (ho hp)
  refine ⟨fun s hm => ?_, distinct_add h.distinct hn ho' hh⟩
  rw [sections_add t (nameRe_nl hn) ho'] at hm
  rcases List.mem_append.1 hm with hm | hm
  · exact h.known s hm
  · rw [List.mem_singleton.1 hm]
    exact .share hn ho

theorem KnownConf.del {t : Bytes} (h : KnownConf t) (n : Bytes) : KnownConf (awkDel n t) := by
  refine ⟨fun s hm => ?_, distinct_awkDel h.distinct n⟩
  rw [sections_awkDel] at hm
  exact h.known s (List.mem_of_mem_filter hm)

theorem knownConf_change {e : Env} (he : Succeeds e) {c : Call} {ok : Bool} {t t' : Bytes}
    (h : KnownConf t) (hc : Change e c ok t t') : KnownConf t' := by
  cases hc with
  | refused | userAddOnly | shareDelOnly | userDelOnly | other => exact h
  | shareAdd _ hn hg _ ho => exact h.add hn ho (he.greps .. ▸ hg)
  | userAdd _ hn _ _ hg => exact h.add hn (fun _ => hn) (he.greps .. ▸ hg)
  | shareDel | userDel => exact h.del _

theorem knownConf_stage3 : KnownConf stage3Conf := by
  constructor
  · intro s hs
    rw [sections_stage3] at hs
    simp only [List.mem_cons, List.not_mem_nil, or_false] at hs
    rcases hs with rfl | rfl | rfl
    · exact .stage3Global
    · exact .stage3Public
    · exact .stage3Alpha
  · rw [Distinct, headers, sections_stage3]
    decide

/-- **A call keeps smb.conf a list of known sections.** -/
theorem knownConf_exec {e : Env} (he : Succeeds e) (c : Call) {w : World} (h : KnownConf w.smb) :
    KnownConf (c.exec e w).2.smb :=
  knownConf_change he h (exec_change he.copies c w)

end Panel
