import RangeRules.Proofs.Text.Location
import RangeRules.Text.Line

/-!
# Two ways to count lines

A location counts the line feeds before an offset. A report looks the offset up among the lines
that it shows, which end at other breaks too, and it has no line after a break at the end of the
text. The lookup is a count as well, of the breaks that open a line. The two counts part at a break
that is no line feed, and at the end of a text that ends with a line feed; once apart, they do not
meet again.
-/
namespace RangeRules.Text

/-- The character ends a line, if `rest` comes after it. -/
def Ends (c : Char) (rest : Source) : Prop :=
  isBreak c = true ∧ ¬ (c = '\r' ∧ rest.head? = some '\n')

/-- It ends a line, and there is something to be on the next. -/
def Opens (c : Char) (rest : Source) : Prop := Ends c rest ∧ rest ≠ []

instance (c : Char) (rest : Source) : Decidable (Ends c rest) :=
  inferInstanceAs (Decidable (_ ∧ ¬ (_ ∧ _)))

instance (c : Char) (rest : Source) : Decidable (Opens c rest) :=
  inferInstanceAs (Decidable (_ ∧ _))

/-- The place that a report gives an offset, counted on from a place where the text begins. -/
def Location.shownFrom (here : Location) : Source → Nat → Location
  | [], _ => here
  | c :: cs, offset =>
    if c.utf8Size ≤ offset then
      shownFrom (if Opens c cs then ⟨here.line + 1, 1⟩ else ⟨here.line, here.column + 1⟩) cs
        (offset - c.utf8Size)
    else here

/-! ### Lines, character by character -/

/-- The lines of a text that goes on in a line begun with `begun`. -/
def linesAfter (begun cs : Source) : List Source :=
  match splitBreaks cs with
  | [] => [begun]
  | line :: lines => (begun ++ line) :: lines

theorem splitBreaks_ne_nil {cs : Source} (h : cs ≠ []) : splitBreaks cs ≠ [] := by
  cases cs with
  | nil => exact absurd rfl h
  | cons c cs =>
    rw [splitBreaks]
    split
    · exact List.cons_ne_nil _ _
    · split <;> exact List.cons_ne_nil _ _

theorem linesAfter_nil_of_ne_nil {cs : Source} (h : cs ≠ []) : linesAfter [] cs = splitBreaks cs := by
  unfold linesAfter
  split
  · next hnil => exact absurd hnil (splitBreaks_ne_nil h)
  · next line lines hlines => rw [hlines, List.nil_append]

/-- A character goes to the line begun, and a further one is begun if it opens one. -/
theorem linesAfter_cons (begun : Source) (c : Char) (cs : Source) :
    linesAfter begun (c :: cs) =
      if Opens c cs then (begun ++ [c]) :: linesAfter [] cs else linesAfter (begun ++ [c]) cs := by
  by_cases hends : Ends c cs
  · have hsplit : splitBreaks (c :: cs) = [c] :: splitBreaks cs := by
      rw [splitBreaks]
      exact if_pos hends
    have hlines : linesAfter begun (c :: cs) = (begun ++ [c]) :: splitBreaks cs := by
      unfold linesAfter
      rw [hsplit]
    by_cases hcs : cs = []
    · have hopens : ¬ Opens c cs := fun h => h.2 hcs
      rw [if_neg hopens, hlines, hcs]
      rfl
    · rw [if_pos ⟨hends, hcs⟩, hlines, linesAfter_nil_of_ne_nil hcs]
  · have hopens : ¬ Opens c cs := fun h => hends h.1
    have hsplit : splitBreaks (c :: cs) = match splitBreaks cs with
        | [] => [[c]]
        | line :: lines => (c :: line) :: lines := by
      rw [splitBreaks]
      exact if_neg hends
    rw [if_neg hopens]
    unfold linesAfter
    rw [hsplit]
    cases splitBreaks cs with
    | nil => rfl
    | cons line lines =>
      dsimp only
      rw [List.append_assoc, List.singleton_append]

theorem linesOf_eq (source : Source) : linesOf source = numberLines 1 0 0 (linesAfter [] source) := by
  unfold linesOf linesAfter
  cases splitBreaks source <;> rfl

/-! ### Looking an offset up -/

variable {n s b offset : Nat}

/-- An offset within the first line is found there. -/
theorem lineAt?_head {t : Source} {ts : List Source} (hstart : b ≤ offset)
    (hstop : offset < b + byteCount t) :
    lineAt? (numberLines n s b (t :: ts)) offset = some ⟨n, s, b, t⟩ := by
  have htail : (numberLines (n + 1) (s + t.length) (b + byteCount t) ts).takeWhile
      (fun l => l.startByte ≤ offset) = [] := by
    cases ts with
    | nil => rfl
    | cons u us =>
      rw [numberLines, List.takeWhile_cons_of_neg]
      simpa using hstop
  unfold lineAt?
  rw [numberLines, List.takeWhile_cons_of_pos (by simpa using hstart), htail]
  rfl

/-- What is found among the further lines is found among all. -/
theorem lineAt?_tail {t : Source} {ts : List Source} {l : Line} (hstart : b ≤ offset)
    (h : lineAt? (numberLines (n + 1) (s + t.length) (b + byteCount t) ts) offset = some l) :
    lineAt? (numberLines n s b (t :: ts)) offset = some l := by
  unfold lineAt? at h ⊢
  rw [numberLines, List.takeWhile_cons_of_pos (by simpa using hstart), List.getLast?_cons, h]
  rfl

theorem exists_linesAfter (begun cs : Source) :
    ∃ line lines, linesAfter begun cs = (begun ++ line) :: lines := by
  unfold linesAfter
  cases splitBreaks cs with
  | nil => exact ⟨[], [], by rw [List.append_nil]⟩
  | cons line lines => exact ⟨line, lines, rfl⟩

/-- The line of an offset that is not beyond the next character is the one begun. -/
theorem exists_lineAt?_begun (begun : Source) (c : Char) (cs : Source) {o : Nat}
    (h : o < c.utf8Size) :
    ∃ l, lineAt? (numberLines n s b (linesAfter begun (c :: cs))) (b + byteCount begun + o) =
        some l ∧ l.number = n ∧ l.charsBefore (b + byteCount begun + o) = begun.length := by
  have hline : ∃ line lines, linesAfter begun (c :: cs) = (begun ++ c :: line) :: lines := by
    rw [linesAfter_cons]
    split
    · exact ⟨[], _, rfl⟩
    · obtain ⟨line, lines, hlines⟩ := exists_linesAfter (begun ++ [c]) cs
      exact ⟨line, lines, by rw [hlines, List.append_assoc, List.singleton_append]⟩
  obtain ⟨line, lines, hlines⟩ := hline
  have hstop : b + byteCount begun + o < b + byteCount (begun ++ c :: line) := by
    rw [byteCount_append, byteCount]
    omega
  refine ⟨_, by rw [hlines]; exact lineAt?_head (by omega) hstop, rfl, ?_⟩
  have hoffset : b + byteCount begun + o - b = byteCount begun + o := by omega
  have hnone : takeBytes o (c :: line) = [] := if_neg (Nat.not_le.2 h)
  unfold Line.charsBefore
  rw [hoffset, takeBytes_append, hnone, List.append_nil]

/-- An offset is found where the count of opened lines says. -/
theorem exists_lineAt?_linesAfter (begun cs : Source) (o : Nat) :
    ∃ l, lineAt? (numberLines n s b (linesAfter begun cs)) (b + byteCount begun + o) = some l ∧
      ⟨l.number, l.charsBefore (b + byteCount begun + o) + 1⟩ =
        Location.shownFrom ⟨n, begun.length + 1⟩ cs o := by
  induction cs generalizing begun n s b o with
  | nil =>
    refine ⟨⟨n, s, b, begun⟩, ?_, ?_⟩
    · have hlines : lineAt? (numberLines n s b [begun]) (b + byteCount begun + o) =
          ([⟨n, s, b, begun⟩] : List Line).getLast? := by
        unfold lineAt?
        rw [numberLines, List.takeWhile_cons_of_pos (by simp; omega)]
        rfl
      exact hlines
    · have hoffset : b + byteCount begun + o - b = byteCount begun + o := by omega
      have htake : takeBytes (byteCount begun + o) begun = begun := by
        have happend := takeBytes_append begun [] o
        rwa [List.append_nil, takeBytes, List.append_nil] at happend
      unfold Line.charsBefore Location.shownFrom
      dsimp only
      rw [hoffset, htake]
  | cons c cs ih =>
    by_cases hsize : c.utf8Size ≤ o
    · have hbytes : byteCount (begun ++ [c]) = byteCount begun + c.utf8Size := by
        rw [byteCount_append]
        rfl
      rw [linesAfter_cons, Location.shownFrom, if_pos hsize]
      by_cases hopens : Opens c cs
      · have hoffset : b + byteCount begun + o =
            b + byteCount (begun ++ [c]) + byteCount [] + (o - c.utf8Size) := by
          rw [hbytes, byteCount]
          omega
        rw [if_pos hopens, if_pos hopens]
        obtain ⟨l, hl, hplace⟩ := @ih (n + 1) (s + (begun ++ [c]).length)
          (b + byteCount (begun ++ [c])) [] (o - c.utf8Size)
        rw [← hoffset] at hl hplace
        exact ⟨l, lineAt?_tail (by omega) hl, hplace⟩
      · have hoffset : b + byteCount begun + o =
            b + byteCount (begun ++ [c]) + (o - c.utf8Size) := by
          rw [hbytes]
          omega
        rw [if_neg hopens, if_neg hopens]
        obtain ⟨l, hl, hplace⟩ := @ih n s b (begun ++ [c]) (o - c.utf8Size)
        rw [← hoffset, List.length_append] at hplace
        rw [← hoffset] at hl
        exact ⟨l, hl, hplace⟩
    · obtain ⟨l, hl, hnumber, hbefore⟩ :=
        @exists_lineAt?_begun n s b begun c cs o (Nat.lt_of_not_le hsize)
      refine ⟨l, hl, ?_⟩
      rw [hnumber, hbefore, Location.shownFrom, if_neg hsize]

/-- The line of an offset in a text, and the place there. -/
theorem exists_lineAt?_linesOf (source : Source) (offset : Nat) :
    ∃ l, lineAt? (linesOf source) offset = some l ∧
      ⟨l.number, l.charsBefore offset + 1⟩ = Location.shownFrom ⟨1, 1⟩ source offset := by
  have h := @exists_lineAt?_linesAfter 1 0 0 [] source offset
  rw [byteCount, Nat.zero_add] at h
  rw [linesOf_eq]
  exact h

/-! ### Where the counts part -/

/-- A break that is no line feed opens a line at or before the offset. -/
def BreaksBefore (source : Source) (offset : Nat) : Prop :=
  ∃ before c rest, source = before ++ c :: rest ∧ byteCount before + c.utf8Size ≤ offset ∧
    c ≠ '\n' ∧ Opens c rest

/-- The text ends with a line feed, and the offset is not before its end. -/
def EndsBefore (source : Source) (offset : Nat) : Prop :=
  source.getLast? = some '\n' ∧ byteCount source ≤ offset

theorem breaksBefore_cons {c : Char} {cs : Source} {offset : Nat} (h : c.utf8Size ≤ offset) :
    BreaksBefore (c :: cs) offset ↔
      (c ≠ '\n' ∧ Opens c cs) ∨ BreaksBefore cs (offset - c.utf8Size) := by
  constructor
  · rintro ⟨before, d, rest, hsource, hbytes, hbreak⟩
    cases before with
    | nil =>
      obtain ⟨rfl, rfl⟩ := List.cons.inj hsource
      exact .inl hbreak
    | cons d' before =>
      obtain ⟨rfl, rfl⟩ := List.cons.inj hsource
      rw [byteCount] at hbytes
      exact .inr ⟨before, d, rest, rfl, by omega, hbreak⟩
  · rintro (hbreak | ⟨before, d, rest, rfl, hbytes, hbreak⟩)
    · exact ⟨[], c, cs, rfl, by rw [byteCount]; omega, hbreak⟩
    · exact ⟨c :: before, d, rest, rfl, by rw [byteCount]; omega, hbreak⟩

theorem not_breaksBefore {c : Char} {cs : Source} {offset : Nat} (h : offset < c.utf8Size) :
    ¬ BreaksBefore (c :: cs) offset := by
  rintro ⟨before, d, rest, hsource, hbytes, -⟩
  cases before with
  | nil =>
    obtain ⟨rfl, -⟩ := List.cons.inj hsource
    omega
  | cons d' before =>
    obtain ⟨rfl, -⟩ := List.cons.inj hsource
    rw [byteCount] at hbytes
    omega

theorem endsBefore_cons {c : Char} {cs : Source} {offset : Nat} (h : c.utf8Size ≤ offset) :
    EndsBefore (c :: cs) offset ↔
      (c = '\n' ∧ cs = []) ∨ EndsBefore cs (offset - c.utf8Size) := by
  unfold EndsBefore
  have hbytes : byteCount (c :: cs) ≤ offset ↔ byteCount cs ≤ offset - c.utf8Size := by
    rw [byteCount]
    omega
  rw [hbytes]
  cases cs with
  | nil => simp [byteCount]
  | cons d cs => simp [List.getLast?_cons_cons]

theorem ends_of_feed {c : Char} (h : c = '\n') (cs : Source) : Ends c cs := by
  subst h
  exact ⟨by decide, fun hreturn => absurd hreturn.1 (by decide)⟩

/-- A count that is ahead by a line stays ahead, or else its column is another. -/
theorem Location.shownFrom_ne_after {here there : Location} (hline : there.line < here.line)
    (hcolumn : 0 < here.column) (cs : Source) (offset : Nat) :
    shownFrom here cs offset ≠ after there (takeBytes offset cs) := by
  induction cs generalizing here there offset with
  | nil =>
    intro h
    have hlines := congrArg Location.line h
    exact absurd hlines (Nat.ne_of_gt hline)
  | cons c cs ih =>
    rw [shownFrom, takeBytes]
    by_cases hsize : c.utf8Size ≤ offset
    · rw [if_pos hsize, if_pos hsize, after]
      by_cases hopens : Opens c cs
      · rw [if_pos hopens]
        refine ih ?_ Nat.one_pos (offset - c.utf8Size)
        split
        · exact Nat.succ_lt_succ hline
        · exact Nat.lt_succ_of_lt hline
      · rw [if_neg hopens]
        by_cases hfeed : c = '\n'
        · -- a line feed opens no line at the end only, and there the columns differ
          have hend : cs = [] := by
            by_cases hcs : cs = []
            · exact hcs
            · exact absurd ⟨ends_of_feed hfeed cs, hcs⟩ hopens
          rw [if_pos hfeed, hend]
          intro h
          have hcolumns : here.column + 1 = 1 := congrArg Location.column h
          omega
        · rw [if_neg hfeed]
          refine ih ?_ (Nat.succ_pos here.column) (offset - c.utf8Size)
          exact hline
    · rw [if_neg hsize, if_neg hsize]
      intro h
      have hlines := congrArg Location.line h
      exact absurd hlines (Nat.ne_of_gt hline)

/-- The counts agree up to an offset unless they have parted before it. -/
theorem Location.shownFrom_eq_after_iff {here : Location} (hcolumn : 0 < here.column) (cs : Source)
    (offset : Nat) : shownFrom here cs offset = after here (takeBytes offset cs) ↔
      ¬ BreaksBefore cs offset ∧ ¬ EndsBefore cs offset := by
  induction cs generalizing here offset with
  | nil =>
    have hbreaks : ¬ BreaksBefore [] offset := by
      rintro ⟨before, c, rest, hsource, -⟩
      simp at hsource
    have hends : ¬ EndsBefore [] offset := nofun
    exact iff_of_true rfl ⟨hbreaks, hends⟩
  | cons c cs ih =>
    by_cases hsize : c.utf8Size ≤ offset
    · rw [shownFrom, takeBytes, if_pos hsize, if_pos hsize, after, breaksBefore_cons hsize,
        endsBefore_cons hsize]
      by_cases hfeed : c = '\n'
      · by_cases hcs : cs = []
        · have hopens : ¬ Opens c cs := fun h => h.2 hcs
          rw [if_pos hfeed, if_neg hopens]
          refine iff_of_false ?_ fun h => h.2 (.inl ⟨hfeed, hcs⟩)
          rw [hcs]
          intro h
          have hcolumns : here.column + 1 = 1 := congrArg Location.column h
          omega
        · have hopens : Opens c cs := ⟨ends_of_feed hfeed cs, hcs⟩
          rw [if_pos hfeed, if_pos hopens, ih Nat.one_pos]
          simp [hfeed, hcs]
      · by_cases hopens : Opens c cs
        · rw [if_neg hfeed, if_pos hopens]
          refine iff_of_false ?_ fun h => h.1 (.inl ⟨hfeed, hopens⟩)
          exact shownFrom_ne_after (Nat.lt_succ_self _) Nat.one_pos cs _
        · rw [if_neg hfeed, if_neg hopens, ih (Nat.succ_pos _)]
          simp [hfeed, hopens]
    · have hends : ¬ EndsBefore (c :: cs) offset := by
        rintro ⟨-, hbytes⟩
        rw [byteCount] at hbytes
        omega
      rw [shownFrom, takeBytes, if_neg hsize, if_neg hsize]
      exact iff_of_true rfl ⟨not_breaksBefore (Nat.lt_of_not_le hsize), hends⟩

theorem Location.shownFrom_eq_of_iff (source : Source) (offset : Nat) :
    shownFrom ⟨1, 1⟩ source offset = .of source offset ↔
      ¬ BreaksBefore source offset ∧ ¬ EndsBefore source offset :=
  shownFrom_eq_after_iff Nat.one_pos source offset

end RangeRules.Text
