import Mathlib.Data.List.Basic
import RangeRules.Proofs.Token.Placement

/-!
# Locations in parts of a text

The bytes of a text are those of its parts, and a location in a part is one in the whole, further
down by the lines before it. No two locations are written alike.
-/
namespace RangeRules.Text

theorem takeBytes_append_of_le {p : Source} {n : Nat} (h : n ≤ byteCount p) (q : Source) :
    takeBytes n (p ++ q) = takeBytes n p := by
  induction p generalizing n with
  | nil =>
    obtain rfl := Nat.le_zero.1 h
    cases q with
    | nil => rfl
    | cons c q => exact if_neg (Nat.not_le.2 c.utf8Size_pos)
  | cons c p ih =>
    rw [byteCount] at h
    rw [List.cons_append, takeBytes, takeBytes, ih (by omega)]

theorem takeBytes_append (p q : Source) (n : Nat) :
    takeBytes (byteCount p + n) (p ++ q) = p ++ takeBytes n q := by
  induction p with
  | nil => rw [byteCount, Nat.zero_add, List.nil_append, List.nil_append]
  | cons c p ih =>
    have hle : c.utf8Size ≤ c.utf8Size + byteCount p + n := by omega
    have hrest : c.utf8Size + byteCount p + n - c.utf8Size = byteCount p + n := by omega
    rw [byteCount, List.cons_append, takeBytes, if_pos hle, hrest, ih, List.cons_append]

namespace Location

theorem after_append (here : Location) (p q : Source) :
    after here (p ++ q) = after (after here p) q := by
  induction p generalizing here with
  | nil => rfl
  | cons c p ih => exact ih _

theorem line_after (here : Location) (p : Source) :
    (after here p).line = here.line + p.count '\n' := by
  induction p generalizing here with
  | nil => rfl
  | cons c p ih =>
    rw [after, ih, List.count_cons]
    by_cases hc : c = '\n'
    · rw [if_pos hc, if_pos (by simp [hc]), Nat.add_assoc, Nat.add_comm 1]
    · rw [if_neg hc, if_neg (by simp [hc])]
      rfl

/-- The location some lines further down. -/
def down (lines : Nat) (here : Location) : Location := ⟨here.line + lines, here.column⟩

theorem after_down (lines : Nat) (here : Location) (p : Source) :
    after (here.down lines) p = (after here p).down lines := by
  induction p generalizing here with
  | nil => rfl
  | cons c p ih =>
    rw [after, after, ← ih]
    congr 1
    split
    · rw [down, down, Nat.add_right_comm]
    · rfl

/-- Places in a text stay where they are when lines are added after it. -/
theorem of_before {p : Source} {n : Nat} (h : n ≤ byteCount p) (q : Source) :
    of (p ++ q) n = of p n := by
  unfold of
  rw [takeBytes_append_of_le h]

/-- Places in a text on the lines after another are further down by the lines of that. -/
theorem of_line (p q : Source) (n : Nat) :
    of (p ++ '\n' :: q) (n + (byteCount p + 1)) = (of q n).down (p.count '\n' + 1) := by
  have hline : byteCount (p ++ ['\n']) = byteCount p + 1 := by
    rw [byteCount_append]
    rfl
  have hend : after ⟨1, 1⟩ (p ++ ['\n']) = down (p.count '\n' + 1) ⟨1, 1⟩ := by
    have hbefore := line_after ⟨1, 1⟩ p
    rw [after_append, after, after, if_pos rfl, hbefore, down, Nat.add_assoc]
  have hsplit : p ++ '\n' :: q = p ++ ['\n'] ++ q := List.append_cons p '\n' q
  unfold of
  rw [Nat.add_comm, ← hline, hsplit, takeBytes_append, after_append, hend, after_down]

theorem text_toList (here : Location) :
    here.text.toList = Nat.toDigits 10 here.line ++ ':' :: Nat.toDigits 10 here.column := by
  change (here.line.repr ++ ":" ++ here.column.repr).toList = _
  rw [String.toList_append, String.toList_append, Nat.toList_repr, Nat.toList_repr,
    List.append_assoc]
  rfl

/-- The colon is no digit, so that a location can be read back from its text. -/
theorem text_inj {here there : Location} : here.text = there.text ↔ here = there := by
  have hcolon : ∀ n : Nat, ':' ∉ Nat.toDigits 10 n := by
    intro n hmem
    have hdigit : Char.isDigit ':' = true := Nat.isDigit_of_mem_toDigits (by decide) (by decide) hmem
    exact absurd hdigit (by decide)
  have hdigits : ∀ {m n : Nat}, Nat.toDigits 10 m = Nat.toDigits 10 n → m = n := by
    intro m n h
    rw [← @Nat.ofDigitChars_ten_toDigits m, h, Nat.ofDigitChars_ten_toDigits]
  constructor
  · intro h
    have hlists := congrArg String.toList h
    rw [text_toList, text_toList,
      List.append_cons_inj_of_notMem (hcolon _) (hcolon _)] at hlists
    obtain ⟨hline, -, hcolumn⟩ := hlists
    cases here
    cases there
    exact congr (congrArg Location.mk (hdigits hline)) (hdigits hcolumn)
  · intro h
    rw [h]

end Location

end RangeRules.Text
