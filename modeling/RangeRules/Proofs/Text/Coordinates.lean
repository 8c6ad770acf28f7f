import Mathlib.Data.Prod.Lex
import Mathlib.Order.Bounds.Basic
import RangeRules.Proofs.Text.Location

/-!
# Lines and columns as coordinates

An offset within a character, or beyond the text, has the location of the last boundary before it.
From boundary to boundary locations grow, first by line and then by column, so that no two
boundaries share one. `offset?` finds the boundary again: it passes as many line feeds as there are
lines before, and then one character for each column before, of which none may be a line feed.
-/
namespace RangeRules.Text

/-- No character of the text is cut at the offset. -/
def Boundary (source : Source) (n : Nat) : Prop :=
  ∃ before after, source = before ++ after ∧ byteCount before = n

/-! ### Boundaries -/

theorem takeBytes_zero (cs : Source) : takeBytes 0 cs = [] := by
  cases cs with
  | nil => rfl
  | cons c cs => exact if_neg (Nat.not_le.2 c.utf8Size_pos)

theorem takeBytes_byteCount (p q : Source) : takeBytes (byteCount p) (p ++ q) = p := by
  rw [← Nat.add_zero (byteCount p), takeBytes_append, takeBytes_zero, List.append_nil]

theorem takeBytes_isPrefix (n : Nat) (cs : Source) : takeBytes n cs <+: cs := by
  induction cs generalizing n with
  | nil => exact List.nil_prefix
  | cons c cs ih =>
    rw [takeBytes]
    split
    · exact (List.prefix_cons_inj c).2 (ih _)
    · exact List.nil_prefix

theorem byteCount_takeBytes_le (n : Nat) (cs : Source) : byteCount (takeBytes n cs) ≤ n := by
  induction cs generalizing n with
  | nil => exact Nat.zero_le n
  | cons c cs ih =>
    rw [takeBytes]
    split
    · have htail := ih (n - c.utf8Size)
      rw [byteCount]
      omega
    · exact Nat.zero_le n

theorem boundary_takeBytes (n : Nat) (source : Source) :
    Boundary source (byteCount (takeBytes n source)) := by
  obtain ⟨q, hq⟩ := takeBytes_isPrefix n source
  exact ⟨_, q, hq.symm, rfl⟩

theorem Boundary.le {source : Source} {n : Nat} (h : Boundary source n) : n ≤ byteCount source := by
  obtain ⟨p, q, rfl, rfl⟩ := h
  rw [byteCount_append]
  exact Nat.le_add_right _ _

/-- Of the boundaries up to an offset, the last is at the end of what is taken before it. -/
theorem isGreatest_takeBytes (source : Source) (offset : Nat) :
    IsGreatest {n | Boundary source n ∧ n ≤ min offset (byteCount source)}
      (byteCount (takeBytes offset source)) := by
  have hboundary := boundary_takeBytes offset source
  refine ⟨⟨hboundary, le_min (byteCount_takeBytes_le offset source) hboundary.le⟩, ?_⟩
  rintro n ⟨⟨p, q, rfl, rfl⟩, hle⟩
  have hoffset : offset = byteCount p + (offset - byteCount p) := by
    have := hle.trans (min_le_left _ _)
    omega
  rw [hoffset, takeBytes_append, byteCount_append]
  exact Nat.le_add_right _ _

namespace Location

theorem of_byteCount (p q : Source) : of (p ++ q) (byteCount p) = after ⟨1, 1⟩ p := by
  unfold of
  rw [takeBytes_byteCount]

/-- An offset has the location of the boundary that is the last up to it. -/
theorem of_takeBytes (source : Source) (offset : Nat) :
    of source (byteCount (takeBytes offset source)) = of source offset := by
  obtain ⟨q, hq⟩ := takeBytes_isPrefix offset source
  have hof := of_byteCount (takeBytes offset source) q
  rw [hq] at hof
  exact hof

/-! ### Order -/

/-- Locations in reading order: by line, and by column in a line. -/
def inOrder (here : Location) : ℕ ×ₗ ℕ := toLex (here.line, here.column)

/-- A character is followed by a later place. -/
theorem inOrder_lt_step (here : Location) (c : Char) :
    here.inOrder < (after here [c]).inOrder := by
  unfold inOrder
  rw [after, after, Prod.Lex.toLex_lt_toLex]
  split
  · exact .inl (Nat.lt_succ_self _)
  · exact .inr ⟨rfl, Nat.lt_succ_self _⟩

theorem inOrder_lt_after (here : Location) {p : Source} (h : p ≠ []) :
    here.inOrder < (after here p).inOrder := by
  induction p generalizing here with
  | nil => exact absurd rfl h
  | cons c p ih =>
    have hstep := inOrder_lt_step here c
    rw [← List.singleton_append, after_append]
    by_cases hp : p = []
    · rw [hp]
      exact hstep
    · exact hstep.trans (ih _ hp)

/-- A later boundary is reached by reading on. -/
theorem exists_of_lt {source : Source} {m n : Nat} (hm : Boundary source m)
    (hn : Boundary source n) (h : m < n) :
    ∃ p q r, source = p ++ q ++ r ∧ q ≠ [] ∧ byteCount p = m ∧ byteCount (p ++ q) = n := by
  obtain ⟨p, p', rfl, rfl⟩ := hm
  obtain ⟨s, s', hs, rfl⟩ := hn
  obtain ⟨q, hq, hp'⟩ | ⟨q, hp, hs'⟩ := List.append_eq_append_iff.1 hs
  · rw [hq]
    refine ⟨p, q, s', by rw [hp', List.append_assoc], ?_, rfl, rfl⟩
    rintro rfl
    rw [hq, List.append_nil] at h
    exact lt_irrefl _ h
  · rw [hp, byteCount_append] at h
    omega

theorem inOrder_lt_of_lt {source : Source} {m n : Nat} (hm : Boundary source m)
    (hn : Boundary source n) (h : m < n) : (of source m).inOrder < (of source n).inOrder := by
  obtain ⟨p, q, r, rfl, hq, rfl, rfl⟩ := exists_of_lt hm hn h
  rw [of_byteCount (p ++ q) r, List.append_assoc, of_byteCount p, after_append]
  exact inOrder_lt_after _ hq

/-! ### The way back -/

/-- A text cut behind its first `n` line feeds, if there are so many. -/
def splitFeeds? : Nat → Source → Option (Source × Source)
  | 0, cs => some ([], cs)
  | _ + 1, [] => none
  | n + 1, c :: cs =>
    (splitFeeds? (if c = '\n' then n else n + 1) cs).map fun (before, rest) => (c :: before, rest)

/-- The offset that a line and a column stand for, where they count lines and characters that the
text has. -/
def offset? (source : Source) (here : Location) : Option Nat := do
  let (before, rest) ← splitFeeds? (here.line - 1) source
  let inside := rest.take (here.column - 1)
  if inside.length = here.column - 1 ∧ '\n' ∉ inside then
    return byteCount before + byteCount inside
  else none

theorem splitFeeds?_zero (cs : Source) : splitFeeds? 0 cs = some ([], cs) := by
  cases cs <;> rfl

theorem splitFeeds?_line (lines rest : Source) :
    splitFeeds? (lines.count '\n' + 1) (lines ++ '\n' :: rest) = some (lines ++ ['\n'], rest) := by
  induction lines with
  | nil =>
    rw [List.nil_append, splitFeeds?, if_pos rfl, List.count_nil, splitFeeds?_zero]
    rfl
  | cons c lines ih =>
    rw [List.cons_append, splitFeeds?, List.count_cons]
    by_cases hc : c = '\n'
    · rw [if_pos hc, if_pos (beq_iff_eq.2 hc), ih]
      rfl
    · rw [if_neg hc, if_neg (mt beq_iff_eq.1 hc), Nat.add_zero, ih]
      rfl

/-- What has been read is in the first line, or some lines and a part of the next. -/
theorem exists_lines (p : Source) :
    '\n' ∉ p ∨ ∃ lines inside, p = lines ++ '\n' :: inside ∧ '\n' ∉ inside := by
  by_cases hmem : '\n' ∈ p
  · obtain ⟨inside, lines, hsplit, hinside⟩ := List.eq_append_cons_of_mem (List.mem_reverse.2 hmem)
    refine .inr ⟨lines.reverse, inside.reverse, ?_, mt List.mem_reverse.1 hinside⟩
    rw [← List.reverse_reverse p, hsplit]
    simp
  · exact .inl hmem

/-- Within a line, columns count characters. -/
theorem after_of_not_mem (here : Location) {inside : Source} (h : '\n' ∉ inside) :
    after here inside = ⟨here.line, here.column + inside.length⟩ := by
  induction inside generalizing here with
  | nil => rfl
  | cons c inside ih =>
    rw [List.mem_cons, not_or] at h
    rw [after, if_neg (Ne.symm h.1), ih _ h.2, List.length_cons, Nat.add_assoc, Nat.add_comm 1]

/-- After a line feed, the line counts the feeds so far and the column the characters since. -/
theorem after_line (here : Location) (lines : Source) {inside : Source} (h : '\n' ∉ inside) :
    after here (lines ++ '\n' :: inside) =
      ⟨here.line + (lines.count '\n' + 1), inside.length + 1⟩ := by
  rw [after_append, after, if_pos rfl, after_of_not_mem _ h, line_after, Nat.add_assoc,
    Nat.add_comm 1]

/-- What stands between the last line feed and a place is found again by its length. -/
theorem offset?_eq {source before inside rest : Source} {here : Location}
    (hlines : splitFeeds? (here.line - 1) source = some (before, inside ++ rest))
    (hcolumn : here.column = inside.length + 1) (h : '\n' ∉ inside) :
    offset? source here = some (byteCount before + byteCount inside) := by
  have htake : (inside ++ rest).take (here.column - 1) = inside := by
    rw [hcolumn, Nat.add_sub_cancel]
    exact List.take_left
  have hlength : inside.length = here.column - 1 := by omega
  unfold offset?
  rw [hlines]
  change (if _ = _ ∧ _ then _ else _) = _
  rw [htake, if_pos ⟨hlength, h⟩]
  rfl

theorem offset?_after (p q : Source) :
    offset? (p ++ q) (after ⟨1, 1⟩ p) = some (byteCount p) := by
  obtain hfirst | ⟨lines, inside, rfl, hinside⟩ := exists_lines p
  · rw [after_of_not_mem _ hfirst]
    have hoffset := @offset?_eq (p ++ q) [] p q ⟨1, 1 + p.length⟩ (splitFeeds?_zero _)
      (Nat.add_comm _ _) hfirst
    rwa [byteCount, Nat.zero_add] at hoffset
  · rw [after_line _ _ hinside]
    have hsplit : splitFeeds? (1 + (lines.count '\n' + 1) - 1) (lines ++ '\n' :: (inside ++ q)) =
        some (lines ++ ['\n'], inside ++ q) := by
      rw [Nat.add_sub_cancel_left, splitFeeds?_line]
    have htext : lines ++ '\n' :: inside ++ q = lines ++ '\n' :: (inside ++ q) := by
      rw [List.append_assoc, List.cons_append]
    have hbytes : byteCount (lines ++ '\n' :: inside) =
        byteCount (lines ++ ['\n']) + byteCount inside := by
      rw [List.append_cons, byteCount_append]
    rw [htext, hbytes]
    exact offset?_eq hsplit rfl hinside

/-- Locations are coordinates of the boundaries in a text: any offset has that of the last boundary
up to it, they grow in reading order and belong to one boundary each, and line feeds and characters
counted off lead back to it. -/
theorem of_coordinates (source : Source) :
    (∀ offset, ∃ n, IsGreatest {n | Boundary source n ∧ n ≤ min offset (byteCount source)} n ∧
        of source offset = of source n) ∧
      StrictMonoOn (fun n => (of source n).inOrder) {n | Boundary source n} ∧
      Set.InjOn (of source) {n | Boundary source n} ∧
      ∀ n, Boundary source n → offset? source (of source n) = some n := by
  have hmono : StrictMonoOn (fun n => (of source n).inOrder) {n | Boundary source n} :=
    fun m hm n hn h => inOrder_lt_of_lt hm hn h
  refine ⟨fun offset => ?_, hmono, fun m hm n hn h => ?_, fun n hn => ?_⟩
  · exact ⟨_, isGreatest_takeBytes source offset, (of_takeBytes source offset).symm⟩
  · exact hmono.injOn hm hn (congrArg inOrder h)
  · obtain ⟨p, q, rfl, rfl⟩ := hn
    rw [of_byteCount]
    exact offset?_after p q

/-- A note with an accent, and a name of one character that is none of the language. -/
def accented : Source := "// é\nπ: 1".toList

theorem of_coordinates_accented :
    Boundary accented 8 ∧ of accented 8 = ⟨2, 2⟩ ∧ offset? accented ⟨2, 2⟩ = some 8 ∧
      ¬ Boundary accented 7 ∧ of accented 7 = of accented 6 := by
  have hof : of accented 8 = ⟨2, 2⟩ := by decide
  have height : Boundary accented 8 := ⟨"// é\nπ".toList, ": 1".toList, rfl, rfl⟩
  have hsix : Boundary accented 6 := ⟨"// é\n".toList, "π: 1".toList, rfl, rfl⟩
  obtain ⟨hlast, -, -, hback⟩ := of_coordinates accented
  have hcut : ¬ Boundary accented 7 := fun h => absurd (hback 7 h) (by decide)
  obtain ⟨n, ⟨⟨hn, hle⟩, hgreatest⟩, hsame⟩ := hlast 7
  have hlow : 6 ≤ n := hgreatest ⟨hsix, by decide⟩
  have hhigh : n ≤ 7 := hle.trans (min_le_left _ _)
  have hne : n ≠ 7 := fun h => hcut (h ▸ hn)
  obtain rfl : n = 6 := by omega
  exact ⟨height, hof, hof ▸ hback 8 height, hcut, hsame⟩

end Location

end RangeRules.Text
