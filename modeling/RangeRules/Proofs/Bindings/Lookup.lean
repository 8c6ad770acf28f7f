import Mathlib
import RangeRules.Bindings.Basic

/-!
# Reading what was bound

The value last bound to a name is the one read under it, and binding one name leaves the others
alone. Two maps with the same names in the same order, and environments that read alike under every
name, stay so when both bind one more name.
-/
namespace RangeRules

variable {V W : Type}

namespace Bindings

theorem lookup_entry (n other : String) (v : V) (rest : List (String × V)) :
    List.lookup other ((n, v) :: rest) = if other = n then some v else rest.lookup other := by
  split
  · next h => rw [h, List.lookup_cons_self]
  · next h => rw [List.lookup, beq_false_of_ne h]

theorem lookup_putEntry (name other : String) (value : V) (entries : List (String × V)) :
    (putEntry name value entries).lookup other =
      if other = name then some value else entries.lookup other := by
  induction entries with
  | nil => exact lookup_entry name other value []
  | cons entry rest ih =>
    obtain ⟨n, v⟩ := entry
    unfold putEntry
    by_cases hn : n = name
    · rw [if_pos hn, lookup_entry, lookup_entry, hn]
      split <;> rfl
    · rw [if_neg hn, lookup_entry, lookup_entry, ih]
      split
      · next h => rw [if_neg (h ▸ hn)]
      · rfl

theorem get?_put (b : Bindings V) (name other : String) (value : V) :
    (b.put name value).get? other = if other = name then some value else b.get? other :=
  lookup_putEntry name other value b.entries

theorem exists_get?_put (b : Bindings V) (name : String) (value : V) {other : String}
    (h : other = name ∨ ∃ v, b.get? other = some v) : ∃ v, (b.put name value).get? other = some v := by
  rw [get?_put]
  split
  · exact ⟨value, rfl⟩
  · next hne => exact h.resolve_left hne

theorem names_put {b : Bindings V} {name : String} (value : V) (h : name ∉ b.names) :
    (b.put name value).names = b.names ++ [name] := by
  obtain ⟨entries⟩ := b
  unfold put names at *
  dsimp only at *
  induction entries with
  | nil => rfl
  | cons entry rest ih =>
    obtain ⟨n, v⟩ := entry
    rw [List.map_cons, List.mem_cons, not_or] at h
    unfold putEntry
    rw [if_neg (Ne.symm h.1), List.map_cons, ih h.2]
    rfl

theorem mem_of_get? {b : Bindings V} {name : String} {v : V} (h : b.get? name = some v) :
    (name, v) ∈ b.entries := by
  obtain ⟨before, after, hentries, -⟩ := List.lookup_eq_some_iff.1 h
  rw [hentries]
  exact List.mem_append_right _ List.mem_cons_self

/-- The same names in the same order, with related values. -/
def Aligned (R : V → W → Prop) (b : Bindings V) (c : Bindings W) : Prop :=
  List.Forall₂ (fun x y => x.1 = y.1 ∧ R x.2 y.2) b.entries c.entries

theorem aligned_empty (R : V → W → Prop) : Aligned R empty empty := .nil

theorem aligned_putEntry {R : V → W → Prop} {b : List (String × V)} {c : List (String × W)}
    (h : List.Forall₂ (fun x y => x.1 = y.1 ∧ R x.2 y.2) b c) (name : String) {v : V} {w : W}
    (hvalue : R v w) :
    List.Forall₂ (fun x y => x.1 = y.1 ∧ R x.2 y.2) (putEntry name v b) (putEntry name w c) := by
  induction h with
  | nil => exact .cons ⟨rfl, hvalue⟩ .nil
  | @cons x y b c hxy hrest ih =>
    obtain ⟨n, v'⟩ := x
    obtain ⟨m, w'⟩ := y
    obtain ⟨rfl, hv⟩ := hxy
    unfold putEntry
    split
    · exact .cons ⟨rfl, hvalue⟩ hrest
    · exact .cons ⟨rfl, hv⟩ ih

theorem Aligned.put {R : V → W → Prop} {b : Bindings V} {c : Bindings W} (h : Aligned R b c)
    (name : String) {v : V} {w : W} (hvalue : R v w) :
    Aligned R (b.put name v) (c.put name w) :=
  aligned_putEntry h name hvalue

theorem Aligned.extend {R : V → W → Prop} {b : Bindings V} {c : Bindings W} (h : Aligned R b c)
    {entries : List (String × V)} {entries' : List (String × W)}
    (hentries : List.Forall₂ (fun x y => x.1 = y.1 ∧ R x.2 y.2) entries entries') :
    Aligned R (b.extend entries) (c.extend entries') := by
  induction hentries generalizing b c with
  | nil => exact h
  | @cons x y entries entries' hxy _ ih =>
    obtain ⟨n, v⟩ := x
    obtain ⟨m, w⟩ := y
    obtain ⟨rfl, hvalue⟩ := hxy
    exact ih (h.put n hvalue)

theorem Aligned.ofList {R : V → W → Prop} {entries : List (String × V)}
    {entries' : List (String × W)}
    (h : List.Forall₂ (fun x y => x.1 = y.1 ∧ R x.2 y.2) entries entries') :
    Aligned R (ofList entries) (ofList entries') :=
  (aligned_empty R).extend h

theorem Aligned.mono {R S : V → W → Prop} {b : Bindings V} {c : Bindings W} (h : Aligned R b c)
    (himp : ∀ v w, R v w → S v w) : Aligned S b c :=
  List.Forall₂.imp (fun _ _ hxy => ⟨hxy.1, himp _ _ hxy.2⟩) h

theorem Aligned.exists_of_mem {R : V → W → Prop} {b : Bindings V} {c : Bindings W}
    (h : Aligned R b c) {y : String × W} (hy : y ∈ c.entries) :
    ∃ x ∈ b.entries, x.1 = y.1 ∧ R x.2 y.2 := by
  obtain ⟨b⟩ := b
  obtain ⟨c⟩ := c
  change List.Forall₂ _ b c at h
  dsimp only at hy ⊢
  induction h with
  | nil => exact nomatch hy
  | @cons x z b c hxz _ ih =>
    rcases List.mem_cons.1 hy with rfl | hy
    · exact ⟨x, List.mem_cons_self, hxz⟩
    · obtain ⟨x', hx', hrel⟩ := ih hy
      exact ⟨x', List.mem_cons_of_mem _ hx', hrel⟩

/-- Aligned maps bind the same names, to related values. -/
theorem Aligned.get? {R : V → W → Prop} {b : Bindings V} {c : Bindings W} (h : Aligned R b c)
    (name : String) : Option.Rel R (b.get? name) (c.get? name) := by
  unfold Bindings.get?
  obtain ⟨b⟩ := b
  obtain ⟨c⟩ := c
  change List.Forall₂ _ b c at h
  dsimp only
  induction h with
  | nil => exact .none
  | @cons x y b c hxy _ ih =>
    obtain ⟨n, v⟩ := x
    obtain ⟨m, w⟩ := y
    obtain ⟨rfl, hv⟩ := hxy
    rw [lookup_entry, lookup_entry]
    split
    · exact .some hv
    · exact ih

end Bindings

/-- What is read under both of two names may be related in another way. -/
theorem rel_imp {R S : V → W → Prop} {v? : Option V} {w? : Option W} (h : Option.Rel R v? w?)
    (himp : ∀ v w, v? = some v → w? = some w → R v w → S v w) : Option.Rel S v? w? := by
  cases h with
  | none => exact .none
  | some hvalue => exact .some (himp _ _ rfl rfl hvalue)

namespace Environment

theorem exists_of_rel {R : V → W → Prop} {v : V} {w? : Option W}
    (h : Option.Rel R (some v) w?) : ∃ w, w? = some w ∧ R v w := by
  cases h with
  | some hvalue => exact ⟨_, rfl, hvalue⟩

/-- Every name that is read in one environment is read in the other, with a related value. -/
structure Agrees (R : V → W → Prop) (env : Environment V) (env' : Environment W) : Prop where
  sources : ∀ name, Option.Rel R (env.source? name) (env'.source? name)
  locals : ∀ name, Option.Rel R (env.local? name) (env'.local? name)

theorem agrees_start {R : V → W → Prop} {b : Bindings V} {c : Bindings W}
    (h : ∀ name, Option.Rel R (b.get? name) (c.get? name)) : Agrees R (start b) (start c) :=
  ⟨h, fun _ => .none⟩

theorem Agrees.bind {R : V → W → Prop} {env : Environment V} {env' : Environment W}
    (h : Agrees R env env') (name : String) {v : V} {w : W} (hvalue : R v w) :
    Agrees R (env.bind name v) (env'.bind name w) := by
  refine ⟨h.sources, fun other => ?_⟩
  unfold Environment.bind local?
  dsimp only
  rw [Bindings.get?_put, Bindings.get?_put]
  split
  · exact .some hvalue
  · exact h.locals other

theorem Agrees.mono {R S : V → W → Prop} {env : Environment V} {env' : Environment W}
    (h : Agrees R env env') (himp : ∀ v w, R v w → S v w) : Agrees S env env' :=
  ⟨fun name => rel_imp (h.sources name) fun v w _ _ => himp v w,
    fun name => rel_imp (h.locals name) fun v w _ _ => himp v w⟩

/-- All values that can be read have a property. -/
structure Each (p : V → Prop) (env : Environment V) : Prop where
  sources : ∀ name v, env.source? name = some v → p v
  locals : ∀ name v, env.local? name = some v → p v

theorem Agrees.each {p : V → Prop} {R : V → W → Prop} {env : Environment V}
    {env' : Environment W} (h : Agrees R env env') (himp : ∀ v w, R v w → p v) : Each p env := by
  constructor
  · intro name v hv
    obtain ⟨w, -, hvalue⟩ := exists_of_rel (hv ▸ h.sources name)
    exact himp v w hvalue
  · intro name v hv
    obtain ⟨w, -, hvalue⟩ := exists_of_rel (hv ▸ h.locals name)
    exact himp v w hvalue

end Environment

end RangeRules
