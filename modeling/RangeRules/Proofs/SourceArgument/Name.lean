import Mathlib.Data.List.DropRight
import RangeRules.Proofs.Evaluation.Steps
import RangeRules.SourceArgument

/-!
# Names of sources

An argument is cut at its first equals sign, the text before it is trimmed, and then `this.` is
taken off its front. Blanks around a name do no harm, with or without `this.`, and the name that is
read is never empty and never ends with a blank. But it is not trimmed again: blanks that come
directly after `this.` stay in it.
-/
namespace RangeRules

/-! ### Trimming -/

namespace Text

/-- Nothing but blanks. -/
def Blank (cs : List Char) : Prop := ∀ c ∈ cs, isBlank c = true

variable {cs m w w' : List Char}

theorem trimEnd_eq (cs : List Char) : trimEnd cs = cs.rdropWhile isBlank := rfl

theorem trimStart_append (hw : Blank w) (cs : List Char) : trimStart (w ++ cs) = trimStart cs :=
  List.dropWhile_append_of_pos hw

theorem trimEnd_append (cs : List Char) (hw : Blank w) : trimEnd (cs ++ w) = trimEnd cs := by
  have hreverse : ∀ c ∈ w.reverse, isBlank c = true := fun c hc => hw c (List.mem_reverse.1 hc)
  unfold trimEnd
  rw [List.reverse_append, List.dropWhile_append_of_pos hreverse]

theorem trimStart_eq_self_iff : trimStart cs = cs ↔ ∀ c ∈ cs.head?, isBlank c = false := by
  unfold trimStart
  rw [List.dropWhile_eq_self_iff]
  cases cs <;> simp

theorem trimEnd_eq_self_iff : trimEnd cs = cs ↔ ∀ c ∈ cs.getLast?, isBlank c = false := by
  have hstart : trimEnd cs = (trimStart cs.reverse).reverse := rfl
  rw [hstart, List.reverse_eq_iff, trimStart_eq_self_iff, List.head?_reverse]

/-- What comes after a text does not matter for its front. -/
theorem trimStart_append_eq_self_iff (hm : m ≠ []) (cs : List Char) :
    trimStart (m ++ cs) = m ++ cs ↔ trimStart m = m := by
  rw [trimStart_eq_self_iff, trimStart_eq_self_iff, List.head?_append_of_ne_nil _ hm]

/-- What comes before a text does not matter for its end. -/
theorem trimEnd_append_eq_self_iff (cs : List Char) (hm : m ≠ []) :
    trimEnd (cs ++ m) = cs ++ m ↔ trimEnd m = m := by
  rw [trimEnd_eq_self_iff, trimEnd_eq_self_iff, List.getLast?_append_of_ne_nil _ hm]

/-- What is trimmed has no blank at either end. -/
theorem trim_trimmed (cs : List Char) :
    trimStart (trim cs) = trim cs ∧ trimEnd (trim cs) = trim cs := by
  have hstart : trimStart (trimStart cs) = trimStart cs := List.dropWhile_idempotent isBlank cs
  have hend : trimEnd (trim cs) = trim cs := by
    unfold trim
    rw [trimEnd_eq, trimEnd_eq]
    exact List.rdropWhile_idempotent isBlank _
  refine ⟨?_, hend⟩
  rw [trimStart_eq_self_iff] at hstart ⊢
  intro c hc
  obtain ⟨rest, hrest⟩ := List.rdropWhile_prefix isBlank (l := trimStart cs)
  rw [← hrest] at hstart
  exact hstart c (List.mem_head?_append_of_mem_head? hc)

theorem exists_trim (cs : List Char) : ∃ w w', Blank w ∧ Blank w' ∧ cs = w ++ trim cs ++ w' := by
  refine ⟨cs.takeWhile isBlank, (trimStart cs).rtakeWhile isBlank,
    fun c hc => List.mem_takeWhile_imp hc, fun c hc => List.mem_rtakeWhile_imp hc, ?_⟩
  have hend : trim cs ++ (trimStart cs).rtakeWhile isBlank = trimStart cs :=
    List.rdropWhile_append_rtakeWhile
  rw [List.append_assoc, hend]
  exact List.takeWhile_append_dropWhile.symm

/-- Blanks around a text without blanks at its ends are trimmed, and nothing else. -/
theorem trim_surrounded (hm : m ≠ []) (hstart : trimStart m = m) (hend : trimEnd m = m)
    (hw : Blank w) (hw' : Blank w') : trim (w ++ m ++ w') = m := by
  unfold trim
  rw [List.append_assoc, trimStart_append hw, (trimStart_append_eq_self_iff hm w').2 hstart,
    trimEnd_append m hw', hend]

theorem Blank.not_mem {c : Char} (hw : Blank w) (hc : isBlank c = false) : c ∉ w :=
  fun hmem => Bool.noConfusion ((hw c hmem).symm.trans hc)

end Text

namespace SourceArgument

open Text (Blank trim trimStart trimEnd isBlank)

/-- What a program writes before the name of a source. -/
def qualifier : List Char := ['t', 'h', 'i', 's', '.']

variable {cs before after n m w w' w'' s : List Char} {a : SourceArgument} {spec : SourceSpec}

/-! ### The parts of an argument -/

theorem splitEquals?_append (h : '=' ∉ before) (after : List Char) :
    splitEquals? (before ++ '=' :: after) = some (before, after) := by
  induction before with
  | nil => exact if_pos rfl
  | cons c before ih =>
    rw [List.mem_cons, not_or] at h
    rw [List.cons_append, splitEquals?, if_neg (Ne.symm h.1), ih h.2]
    rfl

theorem eq_append_of_splitEquals? (h : splitEquals? cs = some (before, after)) :
    cs = before ++ '=' :: after := by
  induction cs generalizing before with
  | nil => exact nomatch h
  | cons c cs ih =>
    rw [splitEquals?] at h
    split at h
    · next hc =>
      obtain ⟨rfl, rfl⟩ := Prod.mk.inj (Option.some.inj h)
      exact congrArg (· :: cs) hc
    · obtain ⟨⟨before', after'⟩, hsplit, hpair⟩ := Option.map_eq_some_iff.1 h
      obtain ⟨rfl, rfl⟩ := Prod.mk.inj hpair
      exact congrArg (c :: ·) (ih hsplit)

theorem bareName_qualifier (rest : List Char) : bareName (qualifier ++ rest) = rest := rfl

theorem bareName_of_unqualified (h : ¬ qualifier <+: cs) : bareName cs = cs := by
  unfold bareName
  split
  · next rest => exact absurd (List.prefix_append qualifier rest) h
  · rfl

/-- What is accepted has a name, which stands before the first equals sign. -/
theorem exists_of_read (h : read cs = .ok a) : ∃ before after, cs = before ++ '=' :: after ∧
    bareName (trim before) ≠ [] ∧ a.name.toList = bareName (trim before) := by
  unfold read at h
  split at h
  · exact nomatch h
  · next before after hsplit =>
    split at h
    · exact nomatch h
    · next hname =>
      obtain ⟨spec, -, h⟩ := then_eq_ok.1 h
      obtain rfl := Except.ok.inj h
      exact ⟨before, after, eq_append_of_splitEquals? hsplit, hname, String.toList_ofList⟩

/-- A text with a name before its first equals sign and a specification after it is accepted. -/
theorem read_append (hbefore : '=' ∉ before) (hname : bareName (trim before) = n) (hn : n ≠ [])
    (hs : SourceSpec.read s = .ok spec) :
    read (before ++ '=' :: s) = .ok ⟨String.ofList n, spec⟩ := by
  unfold read
  rw [splitEquals?_append hbefore]
  dsimp only
  rw [hname, hs]
  cases n with
  | nil => exact absurd rfl hn
  | cons c n => rfl

/-! ### Names that are read -/

/-- But for blanks in front, the text begins with `this.` and a blank. -/
def Spaced (cs : List Char) : Prop :=
  ∃ c rest, isBlank c = true ∧ trimStart cs = qualifier ++ c :: rest

theorem qualifier_clear : ∀ c ∈ qualifier, isBlank c = false ∧ c ≠ '=' := by
  have hall : qualifier.all (fun c => !isBlank c && c != '=') = true := by decide
  simpa using hall

theorem trimStart_qualifier (rest : List Char) :
    trimStart (qualifier ++ rest) = qualifier ++ rest :=
  (Text.trimStart_append_eq_self_iff (by decide) rest).2 (by decide)

/-- Nothing of what follows a name completes it to `this.` and more. -/
theorem qualified_of_append (hw : Blank w) {rest : List Char}
    (h : m ++ (w ++ '=' :: after) = qualifier ++ rest) : qualifier <+: m := by
  obtain ⟨tail, hqualifier, htail⟩ | ⟨tail, hm, -⟩ := List.append_eq_append_iff.1 h
  · cases tail with
    | nil => exact ⟨[], by rw [hqualifier, List.append_nil, List.append_nil]⟩
    | cons c tail =>
      -- the next character of `this.` would be a blank or the equals sign
      have hclear := qualifier_clear c (hqualifier ▸ List.mem_append_right m List.mem_cons_self)
      cases w with
      | nil => exact absurd (List.cons.inj htail).1.symm hclear.2
      | cons d w =>
        have hblank := hw d List.mem_cons_self
        rw [(List.cons.inj htail).1, hclear.1] at hblank
        exact nomatch hblank
  · exact ⟨tail, hm.symm⟩

/-- A name that is read is not empty and does not end with a blank, and it begins with one exactly
if a blank comes directly after `this.`. -/
theorem name_of_read (h : read cs = .ok a) :
    a.name.toList ≠ [] ∧ trimEnd a.name.toList = a.name.toList ∧
      (trimStart a.name.toList = a.name.toList ↔ ¬ Spaced cs) := by
  obtain ⟨before, after, rfl, hne, hname⟩ := exists_of_read h
  obtain ⟨w, w', hw, hw', hbefore⟩ := Text.exists_trim before
  obtain ⟨hstart, hend⟩ := Text.trim_trimmed before
  rw [hname]
  generalize trim before = m at hne hbefore hstart hend ⊢
  have hm : m ≠ [] := by
    rintro rfl
    exact hne rfl
  have hfront : trimStart (before ++ '=' :: after) = m ++ (w' ++ '=' :: after) := by
    rw [hbefore, List.append_assoc, List.append_assoc, Text.trimStart_append hw,
      (Text.trimStart_append_eq_self_iff hm _).2 hstart]
  have hspaced : Spaced (before ++ '=' :: after) ↔
      ∃ c rest, isBlank c = true ∧ m ++ (w' ++ '=' :: after) = qualifier ++ c :: rest := by
    unfold Spaced
    rw [hfront]
  rw [hspaced]
  refine ⟨hne, ?_⟩
  by_cases hqualified : qualifier <+: m
  · obtain ⟨rest, rfl⟩ := hqualified
    rw [bareName_qualifier] at hne ⊢
    refine ⟨(Text.trimEnd_append_eq_self_iff qualifier hne).1 hend, ?_⟩
    obtain ⟨c, name, rfl⟩ := List.exists_cons_of_ne_nil hne
    rw [Text.trimStart_eq_self_iff]
    simp [List.append_assoc]
  · rw [bareName_of_unqualified hqualified]
    refine ⟨hend, iff_of_true hstart ?_⟩
    rintro ⟨c, rest, -, hrest⟩
    exact hqualified (qualified_of_append hw' hrest)

/-- A name that can be written in an argument as it is. -/
structure Plain (n : List Char) : Prop where
  nonempty : n ≠ []
  trimmed : trim n = n
  noEquals : '=' ∉ n
  unqualified : ¬ qualifier <+: n

theorem Plain.clear (hn : Plain n) : trimStart n = n ∧ trimEnd n = n := by
  have htrimmed := Text.trim_trimmed n
  rwa [hn.trimmed] at htrimmed

/-- Blanks around a name are not read. -/
theorem read_plain (hn : Plain n) (hw : Blank w) (hw' : Blank w')
    (hs : SourceSpec.read s = .ok spec) :
    read (w ++ n ++ w' ++ '=' :: s) = .ok ⟨String.ofList n, spec⟩ := by
  obtain ⟨hstart, hend⟩ := hn.clear
  have htrim := Text.trim_surrounded hn.nonempty hstart hend hw hw'
  refine read_append ?_ ?_ hn.nonempty hs
  · simp only [List.mem_append, not_or]
    exact ⟨⟨hw.not_mem rfl, hn.noEquals⟩, hw'.not_mem rfl⟩
  · rw [htrim, bareName_of_unqualified hn.unqualified]

/-- Blanks after `this.` are read as a part of the name. -/
theorem read_qualified (hn : Plain n) (hw : Blank w) (hw' : Blank w') (hw'' : Blank w'')
    (hs : SourceSpec.read s = .ok spec) :
    read (w ++ qualifier ++ w'' ++ n ++ w' ++ '=' :: s) = .ok ⟨String.ofList (w'' ++ n), spec⟩ := by
  have hne : w'' ++ n ≠ [] := List.append_ne_nil_of_right_ne_nil w'' hn.nonempty
  have hname : trim (w ++ (qualifier ++ (w'' ++ n)) ++ w') = qualifier ++ (w'' ++ n) := by
    refine Text.trim_surrounded (List.append_ne_nil_of_left_ne_nil (by decide) _)
      (trimStart_qualifier _) ?_ hw hw'
    rw [← List.append_assoc, Text.trimEnd_append_eq_self_iff _ hn.nonempty]
    exact hn.clear.2
  have htext : w ++ qualifier ++ w'' ++ n ++ w' = w ++ (qualifier ++ (w'' ++ n)) ++ w' := by
    simp only [List.append_assoc]
  rw [htext]
  refine read_append ?_ ?_ hne hs
  · simp only [List.mem_append, not_or]
    exact ⟨⟨hw.not_mem rfl, fun hmem => (qualifier_clear _ hmem).2 rfl, hw''.not_mem rfl,
      hn.noEquals⟩, hw'.not_mem rfl⟩
  · rw [hname, bareName_qualifier]

/-- The name of an accepted argument is not empty, does not end with a blank, and begins with one
exactly if a blank comes directly after `this.`. A name is read as it is written, whatever blanks
are around it, alone or after `this.`; only blanks between the two are read with it. -/
theorem names_read (h : read cs = .ok a) (hn : Plain n) (hw : Blank w) (hw' : Blank w')
    (hw'' : Blank w'') (hs : SourceSpec.read s = .ok spec) :
    (a.name.toList ≠ [] ∧ trimEnd a.name.toList = a.name.toList ∧
      (trimStart a.name.toList = a.name.toList ↔ ¬ Spaced cs)) ∧
    read (n ++ '=' :: s) = .ok ⟨String.ofList n, spec⟩ ∧
    read (w ++ n ++ w' ++ '=' :: s) = .ok ⟨String.ofList n, spec⟩ ∧
    read (w ++ qualifier ++ w'' ++ n ++ w' ++ '=' :: s) = .ok ⟨String.ofList (w'' ++ n), spec⟩ := by
  have hnone : Blank [] := List.forall_mem_nil _
  have halone := @read_plain n [] [] s spec hn hnone hnone hs
  rw [List.nil_append, List.append_nil] at halone
  exact ⟨name_of_read h, halone, read_plain hn hw hw' hs, read_qualified hn hw hw' hw'' hs⟩

theorem names_read_tab : ∃ a spec, read " this. x=1".toList = .ok a ∧
    SourceSpec.read "2..3".toList = .ok spec ∧ Plain ['x'] ∧ Blank [' '] ∧ Blank ['\t'] ∧
    (a.name.toList ≠ [] ∧ trimEnd a.name.toList = a.name.toList ∧
      (trimStart a.name.toList = a.name.toList ↔ ¬ Spaced " this. x=1".toList)) ∧
    read "x=2..3".toList = .ok ⟨"x", spec⟩ ∧ read " x\t=2..3".toList = .ok ⟨"x", spec⟩ ∧
    read " this.\tx\t=2..3".toList = .ok ⟨"\tx", spec⟩ := by
  have hrun : ((read " this. x=1".toList).toOption.isSome,
      (SourceSpec.read "2..3".toList).toOption.isSome) = (true, true) := by
    decide +kernel
  obtain ⟨hsome, hsome'⟩ := Prod.mk.inj hrun
  obtain ⟨a, ha⟩ := Option.isSome_iff_exists.1 hsome
  obtain ⟨spec, hspec⟩ := Option.isSome_iff_exists.1 hsome'
  have hplain : Plain ['x'] := ⟨by decide, by decide, by decide, by decide⟩
  have hspace : Blank [' '] := List.forall_mem_singleton.2 rfl
  have htab : Blank ['\t'] := List.forall_mem_singleton.2 rfl
  exact ⟨a, spec, ok_of_toOption ha, ok_of_toOption hspec, hplain, hspace, htab,
    names_read (ok_of_toOption ha) hplain hspace htab htab (ok_of_toOption hspec)⟩

/-- With a blank after `this.` an argument is for another source than without `this.`. -/
theorem name_keeps_blank : ∃ a b, read "this. x=1".toList = .ok a ∧ read "x=1".toList = .ok b ∧
    trim a.name.toList ≠ a.name.toList ∧ a.name ≠ b.name := by
  have hrun : ((read "this. x=1".toList).toOption.map (·.name),
      (read "x=1".toList).toOption.map (·.name)) = (some " x", some "x") := by
    decide +kernel
  obtain ⟨hspaced, hplain⟩ := Prod.mk.inj hrun
  obtain ⟨a, ha, hname⟩ := Option.map_eq_some_iff.1 hspaced
  obtain ⟨b, hb, hname'⟩ := Option.map_eq_some_iff.1 hplain
  refine ⟨a, b, ok_of_toOption ha, ok_of_toOption hb, ?_, ?_⟩
  · rw [hname]
    decide +kernel
  · rw [hname, hname']
    decide +kernel

end SourceArgument

end RangeRules
