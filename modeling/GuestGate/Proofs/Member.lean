import GuestGate.Member
import GuestGate.Proofs.Text.Cutting

/-!
# Members in writing

A member is read back from what it is written as, unless its parts can be taken for one another
there, and a text that is read is what its member is written as, but for a dot in front of a type
of the empty namespace.  Such a dot is taken for the end of the namespace and is not written
again, so the two spellings mean the same member; without the dot the type path may even be
empty, which is not read at all.
-/

namespace GuestGate

theorem not_mem_snd_splitTypePath (path : String) : '.' ∉ (splitTypePath path).2.toList := by
  unfold splitTypePath
  split
  · next parts hparts =>
      rw [String.toList_ofList]
      exact Text.not_mem_of_cutLast hparts
  · next hnone => exact Text.not_mem_of_cutLast_eq_none hnone

/-- A type name without dots is found again in its path. -/
theorem splitTypePath_joinTypePath (namespaceName : String) {typeName : String}
    (h : '.' ∉ typeName.toList) :
    splitTypePath (joinTypePath namespaceName typeName) = (namespaceName, typeName) := by
  by_cases hempty : namespaceName = ""
  · simp [splitTypePath, joinTypePath, hempty, Text.cutLast_eq_none_of_not_mem h]
  · have hpath : (joinTypePath namespaceName typeName).toList =
        namespaceName.toList ++ '.' :: typeName.toList := by
      simp [joinTypePath, hempty]
    rw [splitTypePath, hpath, Text.cutLast_append_cons _ h]
    simp

/-- The paths that are cut into a namespace and a name. -/
theorem splitTypePath_eq_iff {path namespaceName typeName : String} :
    splitTypePath path = (namespaceName, typeName) ↔ '.' ∉ typeName.toList ∧
      (path = joinTypePath namespaceName typeName ∨
        namespaceName = "" ∧ path = "." ++ typeName) := by
  constructor
  · intro h
    have hdots := not_mem_snd_splitTypePath path
    rw [h] at hdots
    refine ⟨hdots, ?_⟩
    rw [splitTypePath] at h
    split at h
    · next parts hparts =>
        cases h
        have hpath := Text.append_of_cutLast hparts
        by_cases hempty : parts.1 = []
        · right
          rw [hempty] at hpath
          exact ⟨by simp [hempty], by rw [← String.toList_inj, ← hpath]; simp⟩
        · left
          rw [← String.toList_inj, ← hpath]
          simp [joinTypePath, hempty]
    · cases h
      exact .inl (by simp [joinTypePath])
  · rintro ⟨hdots, rfl | ⟨rfl, rfl⟩⟩
    · exact splitTypePath_joinTypePath _ hdots
    · have hcut := Text.cutLast_append_cons [] hdots
      rw [List.nil_append] at hcut
      simp [splitTypePath, hcut]

namespace MemberRef

theorem ofTypePath_typePath {m : MemberRef} (h : '.' ∉ m.typeName.toList) :
    ofTypePath m.typePath m.name = m := by
  simp [ofTypePath, typePath, splitTypePath_joinTypePath _ h]

variable {m : MemberRef} {text : String}

/-- A member that is found where it is written: its type name has no dots, it has a name, and the
first `::` of its writing is the one behind the type path. -/
structure Legible (m : MemberRef) : Prop where
  not_mem_typeName : '.' ∉ m.typeName.toList
  name_ne : m.name ≠ ""
  cut_render : Text.cut "::".toList m.render.toList = some (m.typePath.toList, m.name.toList)

theorem parse?_eq_some_iff_exists : parse? text = some m ↔ ∃ path : String, path ≠ "" ∧
    m.name ≠ "" ∧ Text.cut "::".toList text.toList = some (path.toList, m.name.toList) ∧
      splitTypePath path = (m.namespaceName, m.typeName) := by
  constructor
  · intro h
    rw [parse?] at h
    split at h
    · next path name hcut =>
        split at h
        · cases h
        · next hempty =>
            cases h
            rw [Bool.not_eq_true, Bool.or_eq_false_iff] at hempty
            refine ⟨String.ofList path, ?_, ?_, ?_, rfl⟩
            · simpa using hempty.1
            · simpa [ofTypePath] using hempty.2
            · simpa [ofTypePath] using hcut
    · cases h
  · rintro ⟨path, hpath, hname, hcut, hsplit⟩
    rw [parse?, hcut]
    simp [ofTypePath, hpath, hname, hsplit]

theorem cut_dot_append_iff {text path name : String} :
    Text.cut "::".toList ("." ++ text).toList = some (("." ++ path).toList, name.toList) ↔
      Text.cut "::".toList text.toList = some (path.toList, name.toList) := by
  have hdot (rest : String) : ("." ++ rest).toList = '.' :: rest.toList := by simp
  have hseparator : "::".toList = [':', ':'] := rfl
  rw [hdot, hdot, hseparator, Text.cut_cons_of_ne (by decide)]
  cases Text.cut [':', ':'] text.toList <;> simp [Prod.ext_iff]

theorem typePath_of_empty (h : m.namespaceName = "") : m.typePath = m.typeName := by
  simp [typePath, joinTypePath, h]

/-- A legible member is read from its writing, if its type path is not empty, and in the empty
namespace also from its writing behind a dot. -/
theorem parse?_eq_some_iff : parse? text = some m ↔ m.Legible ∧
    (text = m.render ∧ m.typePath ≠ "" ∨ text = "." ++ m.render ∧ m.namespaceName = "") := by
  rw [parse?_eq_some_iff_exists]
  constructor
  · rintro ⟨path, hpath, hname, hcut, hsplit⟩
    have htext : text = path ++ "::" ++ m.name := by
      rw [← String.toList_inj, ← Text.append_of_cut hcut]
      simp
    -- the path is that of the member, or the dot in front of it went with the empty namespace
    obtain ⟨hdots, rfl | ⟨hempty, rfl⟩⟩ := splitTypePath_eq_iff.mp hsplit
    · subst htext
      exact ⟨⟨hdots, hname, hcut⟩, .inl ⟨rfl, hpath⟩⟩
    · have hrender : text = "." ++ m.render := by
        rw [htext, render, typePath_of_empty hempty]
        simp only [String.append_assoc]
      refine ⟨⟨hdots, hname, ?_⟩, .inr ⟨hrender, hempty⟩⟩
      rw [hrender, cut_dot_append_iff] at hcut
      rw [hcut, typePath_of_empty hempty]
  · rintro ⟨⟨hdots, hname, hcut⟩, ⟨rfl, hpath⟩ | ⟨rfl, hempty⟩⟩
    · exact ⟨m.typePath, hpath, hname, hcut, splitTypePath_joinTypePath _ hdots⟩
    · refine ⟨"." ++ m.typePath, by simp, hname, cut_dot_append_iff.mpr hcut, ?_⟩
      rw [typePath_of_empty hempty]
      exact splitTypePath_eq_iff.mpr ⟨hdots, .inr ⟨hempty, rfl⟩⟩

theorem dot_append_ne (text : String) : "." ++ text ≠ text := by
  intro h
  simpa using congrArg String.length h

theorem Legible.render_ne_dot (h : m.Legible) (hpath : m.typePath ≠ "")
    (hempty : m.namespaceName = "") (rest : String) : m.render ≠ "." ++ rest := by
  intro heq
  have hlist : m.typeName.toList ++ "::".toList ++ m.name.toList = '.' :: rest.toList := by
    simpa [render, typePath_of_empty hempty] using congrArg String.toList heq
  cases hname : m.typeName.toList with
  | nil => exact hpath (by rw [typePath_of_empty hempty, ← String.toList_inj, hname]; rfl)
  | cons c name =>
      rw [hname] at hlist
      obtain rfl : c = '.' := (List.cons.inj hlist).1
      exact h.not_mem_typeName (by simp [hname])

theorem parse?_render (h : m.Legible) :
    parse? m.render = if m.typePath = "" then none else some m := by
  by_cases hpath : m.typePath = ""
  · rw [parse?, h.cut_render]
    simp [hpath]
  · rw [if_neg hpath]
    exact parse?_eq_some_iff.mpr ⟨h, .inl ⟨rfl, hpath⟩⟩

/-- A text that is read is the writing of its member, unless it puts a dot in front of a type of
the empty namespace.  The texts of a member are its writing and, in the empty namespace, the
writing behind a dot; and the writing is read again unless the type path is empty. -/
theorem parse?_lossless_iff (h : parse? text = some m) :
    (m.render = text ↔ ¬ (m.namespaceName = "" ∧ ∃ rest, text = "." ++ rest)) ∧
    (∀ other, parse? other = some m ↔ other = m.render ∧ m.typePath ≠ "" ∨
      other = "." ++ m.render ∧ m.namespaceName = "") ∧
    parse? m.render = if m.typePath = "" then none else some m := by
  obtain ⟨hlegible, htext⟩ := parse?_eq_some_iff.mp h
  refine ⟨?_, fun other ↦ ?_, parse?_render hlegible⟩
  · rcases htext with ⟨rfl, hpath⟩ | ⟨rfl, hempty⟩
    · have hdot : ¬ (m.namespaceName = "" ∧ ∃ rest, m.render = "." ++ rest) := by
        rintro ⟨hempty, rest, hrest⟩
        exact hlegible.render_ne_dot hpath hempty rest hrest
      exact iff_of_true rfl hdot
    · exact iff_of_false (dot_append_ne m.render).symm fun h ↦ h ⟨hempty, _, rfl⟩
  · rw [parse?_eq_some_iff]
    simp only [hlegible, true_and]

/-- The member of a namespace has one spelling. -/
theorem parse?_wait : parse? "Clock.Timer::Wait" = some ⟨"Clock", "Timer", "Wait"⟩ ∧
    (∀ other, parse? other = some ⟨"Clock", "Timer", "Wait"⟩ → other = "Clock.Timer::Wait") ∧
    parse? (render ⟨"Clock", "Timer", "Wait"⟩) = some ⟨"Clock", "Timer", "Wait"⟩ := by
  have hread : parse? "Clock.Timer::Wait" = some ⟨"Clock", "Timer", "Wait"⟩ := by decide
  obtain ⟨-, hspellings, hagain⟩ := parse?_lossless_iff hread
  refine ⟨hread, fun other hother ↦ ?_, hagain.trans (if_neg (by decide))⟩
  rcases (hspellings other).mp hother with ⟨hrender, -⟩ | ⟨-, hempty⟩
  · exact hrender.trans (by decide)
  · simp at hempty

/-- A dot in front of a type of the empty namespace is lost, two spellings mean one member, and
what is left without the dot may not be read again. -/
theorem parse?_leadingDot :
    parse? ".Timer::Wait" = some ⟨"", "Timer", "Wait"⟩ ∧
      render ⟨"", "Timer", "Wait"⟩ = "Timer::Wait" ∧
      parse? "Timer::Wait" = some ⟨"", "Timer", "Wait"⟩ ∧
      parse? ".::Wait" = some ⟨"", "", "Wait"⟩ ∧ parse? (render ⟨"", "", "Wait"⟩) = none := by
  decide

/-- A member whose parts cannot be taken for one another where it is written. -/
structure WellFormed (m : MemberRef) : Prop where
  not_mem_typeName : '.' ∉ m.typeName.toList
  typePath_ne : m.typePath ≠ ""
  not_infix_typePath : ¬ "::".toList <:+: m.typePath.toList
  not_suffix_typePath : ¬ ":".toList <:+ m.typePath.toList
  name_ne : m.name ≠ ""

/-- The first `::` in writing is the one behind the type path, unless the path has one of its own
or lends it a colon. -/
theorem cut_render_iff : Text.cut "::".toList m.render.toList =
    some (m.typePath.toList, m.name.toList) ↔
      ¬ "::".toList <:+: m.typePath.toList ∧ ¬ ":".toList <:+ m.typePath.toList := by
  have hrender : m.render.toList = m.typePath.toList ++ ("::".toList ++ m.name.toList) := by
    simp [render]
  have hlast : "::".toList.dropLast = [':'] := rfl
  have hsuffix : "::".toList <:+ m.typePath.toList ++ [':'] ↔ ":".toList <:+ m.typePath.toList := by
    have hcolons : "::".toList = ":".toList ++ [':'] := rfl
    rw [hcolons, List.suffix_append_inj_of_length_eq rfl]
    simp
  rw [hrender, Text.cut_append_eq_some_iff (by decide), hlast, List.infix_concat_iff, hsuffix,
    not_or, and_comm]

/-- Exactly the well-formed members are read again from what they are written as. -/
theorem parse?_render_iff_wellFormed : parse? m.render = some m ↔ m.WellFormed := by
  rw [parse?_eq_some_iff]
  constructor
  · rintro ⟨⟨hdots, hname, hcut⟩, ⟨-, hpath⟩ | ⟨hdot, -⟩⟩
    · obtain ⟨hwithin, hsuffix⟩ := cut_render_iff.mp hcut
      exact ⟨hdots, hpath, hwithin, hsuffix, hname⟩
    · exact absurd hdot.symm (dot_append_ne m.render)
  · rintro ⟨hdots, hpath, hwithin, hsuffix, hname⟩
    exact ⟨⟨hdots, hname, cut_render_iff.mpr ⟨hwithin, hsuffix⟩⟩, .inl ⟨rfl, hpath⟩⟩

end MemberRef

end GuestGate
