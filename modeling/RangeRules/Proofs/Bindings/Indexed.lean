import Mathlib
import RangeRules.Bindings.Indexed
import RangeRules.Proofs.Bindings.Lookup

/-!
# The index of a map

The hash table of a map takes a name to the position at which it stands among the names of the
entries, and this is kept by every change. What is looked up through the table is therefore what a
walk over the entries finds: the map with an index implements the one without, and both keep, for
every name that was ever bound, the value that was bound to it last, in the order of the first
bindings.
-/
namespace RangeRules

variable {V : Type}

namespace Bindings

theorem index?_entry (n name : String) (v : V) (rest : List (String × V)) :
    index? ⟨(n, v) :: rest⟩ name =
      if n = name then some 0 else (index? ⟨rest⟩ name).map (· + 1) := by
  unfold index? names
  rw [List.map_cons, List.idxOf?_cons]
  by_cases h : n = name
  · rw [if_pos h, if_pos (beq_iff_eq.2 h)]
  · rw [if_neg h, if_neg (mt beq_iff_eq.1 h)]

theorem index?_eq_none {b : Bindings V} {name : String} :
    b.index? name = none ↔ name ∉ b.names :=
  List.idxOf?_eq_none_iff

theorem contains_iff {b : Bindings V} {name : String} : b.contains name = true ↔ name ∈ b.names := by
  unfold contains get? names
  rw [List.lookup_isSome_iff, List.mem_map]
  exact exists_congr fun entry => and_congr_right fun _ => beq_iff_eq.trans eq_comm

/-- The value under a name is the one at its position. -/
theorem get?_eq_index? (b : Bindings V) (name : String) :
    b.get? name = (b.index? name).bind fun i => b.entries[i]?.map Prod.snd := by
  obtain ⟨entries⟩ := b
  unfold get?
  induction entries with
  | nil => rfl
  | cons entry rest ih =>
    obtain ⟨n, v⟩ := entry
    rw [lookup_entry, index?_entry]
    dsimp only at ih ⊢
    by_cases h : n = name
    · rw [if_pos h.symm, if_pos h]
      rfl
    · rw [if_neg (Ne.symm h), if_neg h, ih, Option.bind_map]
      rfl

/-- A name is bound again at its position, and a new one after all others. -/
theorem put_eq_index? (b : Bindings V) (name : String) (value : V) :
    b.put name value = ⟨match b.index? name with
      | some i => b.entries.modify i fun (n, _) => (n, value)
      | none => b.entries ++ [(name, value)]⟩ := by
  obtain ⟨entries⟩ := b
  unfold put
  congr 1
  induction entries with
  | nil => rfl
  | cons entry rest ih =>
    obtain ⟨n, v⟩ := entry
    unfold putEntry
    rw [index?_entry]
    dsimp only at ih ⊢
    by_cases h : n = name
    · rw [if_pos h, if_pos h]
      rfl
    · rw [if_neg h, if_neg h, ih]
      cases index? ⟨rest⟩ name <;> rfl

theorem names_put_of_index? {b : Bindings V} {name : String} {i : Nat} (value : V)
    (h : b.index? name = some i) : (b.put name value).names = b.names := by
  rw [put_eq_index?, h]
  unfold names
  dsimp only
  refine List.ext_getElem? fun j => ?_
  rw [List.getElem?_map, List.getElem?_map, List.getElem?_modify]
  cases b.entries[j]? with
  | none => rfl
  | some entry =>
    dsimp only [Option.map_some]
    split <;> rfl

/-- A new name comes after all others; the positions of the names that were bound stay. -/
theorem index?_put (b : Bindings V) (name other : String) (value : V) :
    (b.put name value).index? other =
      if name = other ∧ b.index? name = none then some b.entries.length else b.index? other := by
  obtain ⟨entries⟩ := b
  unfold put
  dsimp only
  induction entries with
  | nil =>
    unfold putEntry
    rw [index?_entry]
    by_cases h : name = other
    · rw [if_pos h, if_pos ⟨h, rfl⟩]
      rfl
    · rw [if_neg h, if_neg fun hnew => h hnew.1]
      rfl
  | cons entry rest ih =>
    obtain ⟨n, v⟩ := entry
    unfold putEntry
    rw [index?_entry n name v rest]
    by_cases h : n = name
    · rw [if_pos h, if_pos h, if_neg fun hnew => Option.some_ne_none _ hnew.2]
      rw [index?_entry n other value, index?_entry n other v]
    · rw [if_neg h, if_neg h, index?_entry n other, index?_entry n other, ih]
      by_cases hother : n = other
      · rw [if_pos hother, if_pos hother, if_neg fun hnew => h (hother.trans hnew.1.symm)]
      · rw [if_neg hother, if_neg hother]
        by_cases hnew : name = other ∧ index? ⟨rest⟩ name = none
        · rw [if_pos hnew, if_pos ⟨hnew.1, Option.map_eq_none_iff.2 hnew.2⟩]
          rfl
        · rw [if_neg hnew, if_neg fun h => hnew ⟨h.1, Option.map_eq_none_iff.1 h.2⟩]

theorem names_put_eq (b : Bindings V) (name : String) (value : V) :
    (b.put name value).names = if name ∈ b.names then b.names else b.names ++ [name] := by
  by_cases h : name ∈ b.names
  · obtain ⟨i, hi⟩ := Option.isSome_iff_exists.1 (List.isSome_idxOf?.2 h)
    rw [if_pos h, names_put_of_index? value hi]
  · rw [if_neg h, names_put value h]

theorem ofList_concat (entries : List (String × V)) (name : String) (value : V) :
    ofList (entries ++ [(name, value)]) = (ofList entries).put name value := by
  unfold ofList extend
  rw [List.foldl_append]
  rfl

/-- The names of what was bound one after the other, in the order of their first bindings. -/
theorem names_ofList (entries : List (String × V)) :
    (ofList entries).names = (entries.map Prod.fst).eraseDups := by
  induction entries using List.reverseRecOn with
  | nil => rfl
  | append_singleton entries entry ih =>
    obtain ⟨name, value⟩ := entry
    rw [ofList_concat, names_put_eq, ih, List.map_append, List.eraseDups_append]
    by_cases h : name ∈ entries.map Prod.fst
    · rw [if_pos (List.mem_eraseDups.2 h)]
      simp [List.removeAll, h]
    · rw [if_neg (mt List.mem_eraseDups.1 h)]
      simp [List.removeAll, h, List.eraseDups_cons]

/-- Under a name is what was bound to it last. -/
theorem get?_ofList (entries : List (String × V)) (name : String) :
    (ofList entries).get? name = entries.reverse.lookup name := by
  induction entries using List.reverseRecOn with
  | nil => rfl
  | append_singleton entries entry ih =>
    obtain ⟨n, v⟩ := entry
    rw [ofList_concat, get?_put, ih, List.reverse_append]
    exact (lookup_entry n name v entries.reverse).symm

theorem nodup_put {b : Bindings V} (h : b.names.Nodup) (name : String) (value : V) :
    (b.put name value).names.Nodup := by
  rw [names_put_eq]
  split
  · exact h
  · next hnew =>
      rw [List.nodup_append]
      exact ⟨h, List.nodup_singleton name, fun n hn m hm heq =>
        hnew (List.mem_singleton.1 hm ▸ heq ▸ hn)⟩

/-- Entries with distinct names are collected as they are. -/
theorem ofList_of_nodup {entries : List (String × V)} (h : (entries.map Prod.fst).Nodup) :
    ofList entries = ⟨entries⟩ := by
  induction entries using List.reverseRecOn with
  | nil => rfl
  | append_singleton entries entry ih =>
    obtain ⟨name, value⟩ := entry
    rw [List.map_append, List.nodup_append] at h
    have hnew : index? ⟨entries⟩ name = none :=
      index?_eq_none.2 fun hmem => h.2.2 name hmem name List.mem_cons_self rfl
    rw [ofList_concat, ih h.1, put_eq_index?, hnew]

/-- Collecting what was written is the same as making the changes. -/
theorem after_eq_ofList (changes : List (Change V)) :
    after changes = ofList (Change.written changes) := by
  induction changes using List.reverseRecOn with
  | nil => rfl
  | append_singleton changes change ih =>
    unfold after Change.written at *
    rw [List.foldl_append, List.foldl_append, ih]
    cases change with
    | insert name value => exact (ofList_concat _ name value).symm
    | extend entries => exact (List.foldl_append ..).symm
    | collect entries => rfl

theorem map_fst_eq_of_beq [BEq V] {entries entries' : List (String × V)}
    (h : (entries == entries') = true) : entries.map Prod.fst = entries'.map Prod.fst := by
  induction entries generalizing entries' with
  | nil => cases entries' with
    | nil => rfl
    | cons => exact nomatch h
  | cons entry entries ih => cases entries' with
    | nil => exact nomatch h
    | cons entry' entries' =>
      rw [List.cons_beq_cons, Bool.and_eq_true] at h
      obtain ⟨hname, -⟩ := Bool.and_eq_true_iff.1 h.1
      rw [List.map_cons, List.map_cons, ih h.2, beq_iff_eq.1 hname]

/-- A map with an index stores the one without: the same entries, under distinct names, each of
which the table takes to its position. -/
structure Implements (m : IndexedBindings V) (b : Bindings V) : Prop where
  entries : m.entries = b.entries
  nodup : b.names.Nodup
  index : ∀ name, m.index[name]? = b.index? name

theorem implements_empty : Implements (V := V) .empty .empty :=
  ⟨rfl, List.nodup_nil, fun _ => Std.ExtHashMap.getElem?_empty⟩

namespace Implements

variable {m : IndexedBindings V} {b : Bindings V}

theorem names (h : Implements m b) : m.names = b.names := congrArg (List.map Prod.fst) h.entries

theorem get? (h : Implements m b) (name : String) : m.get? name = b.get? name := by
  unfold IndexedBindings.get?
  rw [h.index, h.entries, get?_eq_index?]

theorem contains (h : Implements m b) (name : String) : m.contains name = b.contains name := by
  unfold IndexedBindings.contains
  rw [Std.ExtHashMap.contains_eq_isSome_getElem?, h.index, Bool.eq_iff_iff, contains_iff]
  exact List.isSome_idxOf?

/-- One name is bound in step, and the value that it had is returned. -/
theorem insert (h : Implements m b) (name : String) (value : V) :
    (m.insert name value).1 = (b.insert name value).1 ∧
      Implements (m.insert name value).2 (b.insert name value).2 := by
  unfold IndexedBindings.insert Bindings.insert
  have hput := congrArg Bindings.entries (put_eq_index? b name value)
  rw [h.index, h.entries]
  cases hi : b.index? name with
  | some i =>
    rw [hi] at hput
    refine ⟨by rw [get?_eq_index?, hi]; rfl, hput.symm, nodup_put h.nodup name value, fun other => ?_⟩
    rw [index?_put, hi, if_neg fun hnew => Option.some_ne_none _ hnew.2]
    exact h.index other
  | none =>
    rw [hi] at hput
    refine ⟨by rw [get?_eq_index?, hi]; rfl, hput.symm, nodup_put h.nodup name value, fun other => ?_⟩
    dsimp only
    rw [index?_put, hi, Std.ExtHashMap.getElem?_insert, h.index]
    simp only [beq_iff_eq, and_true]

theorem extend (h : Implements m b) (entries : List (String × V)) :
    Implements (m.extend entries) (b.extend entries) := by
  induction entries generalizing m b with
  | nil => exact h
  | cons entry entries ih => exact ih (h.insert entry.1 entry.2).2

theorem ofList (entries : List (String × V)) :
    Implements (.ofList entries) (Bindings.ofList entries) :=
  implements_empty.extend entries

theorem after (changes : List (Change V)) : Implements (.after changes) (Bindings.after changes) := by
  induction changes using List.reverseRecOn with
  | nil => exact implements_empty
  | append_singleton changes change ih =>
    unfold IndexedBindings.after Bindings.after at *
    rw [List.foldl_append, List.foldl_append]
    cases change with
    | insert name value => exact (ih.insert name value).2
    | extend entries => exact ih.extend entries
    | collect entries => exact ofList entries

/-- A name stands where the table says that it does. -/
theorem position (h : Implements m b) (name : String) (i : Nat) :
    m.index[name]? = some i ↔ m.names[i]? = some name := by
  rw [h.index, h.names]
  unfold index?
  rw [List.idxOf?_eq_some_iff]
  constructor
  · rintro ⟨hi, hname, -⟩
    rw [List.getElem?_eq_getElem hi, hname]
  · intro hname
    obtain ⟨hi, hname⟩ := List.getElem?_eq_some_iff.1 hname
    refine ⟨hi, hname, fun j hj heq => ?_⟩
    exact absurd ((List.Nodup.getElem_inj_iff h.nodup).1 (heq.trans hname.symm)) (Nat.ne_of_lt hj)

/-- The entries determine the table. -/
theorem index_eq {m' : IndexedBindings V} {b' : Bindings V} (h : Implements m b)
    (h' : Implements m' b') (hnames : m.names = m'.names) : m.index = m'.index := by
  refine Std.ExtHashMap.ext_getElem? fun name => ?_
  rw [h.index, h'.index]
  unfold index?
  rw [← h.names, ← h'.names, hnames]

theorem beq_eq [BEq V] {m' : IndexedBindings V} {b' : Bindings V} (h : Implements m b)
    (h' : Implements m' b') : (m == m') = (m.entries == m'.entries) := by
  change (m.entries == m'.entries && m.index == m'.index) = _
  cases hbeq : m.entries == m'.entries with
  | false => rfl
  | true =>
    rw [index_eq h h' (map_fst_eq_of_beq hbeq), Bool.true_and]
    exact beq_self_eq_true m'.index

theorem collect_entries (h : Implements m b) : IndexedBindings.ofList m.entries = m := by
  have hcollect : Implements (.ofList b.entries) b := by
    have hof := ofList b.entries
    rwa [ofList_of_nodup h.nodup] at hof
  have hentries := hcollect.entries.trans h.entries.symm
  rw [h.entries]
  exact IndexedBindings.ext hentries (index_eq hcollect h (congrArg (List.map Prod.fst) hentries))

end Implements

end Bindings

namespace IndexedBindings

/-- A map that keeps what was bound, given the earliest binding first: each name once, in the order
of the first bindings, with the value that was bound to it last, and in the table with its
position. -/
structure Keeps (m : IndexedBindings V) (history : List (String × V)) : Prop where
  nodup : m.names.Nodup
  position : ∀ (name : String) (i : Nat), m.index[name]? = some i ↔ m.names[i]? = some name
  names : m.names = (history.map Prod.fst).eraseDups
  entries : ∀ (i : Nat) name value, m.entries[i]? = some (name, value) ↔
    m.names[i]? = some name ∧ m.get? name = some value
  get? : ∀ name, m.get? name = history.reverse.lookup name
  contains : ∀ name, m.contains name = true ↔ name ∈ history.map Prod.fst

theorem entries_iff {m : IndexedBindings V} {b : Bindings V} (h : Bindings.Implements m b) (i : Nat)
    (name : String) (value : V) : m.entries[i]? = some (name, value) ↔
      m.names[i]? = some name ∧ m.get? name = some value := by
  have hname : m.names[i]? = m.entries[i]?.map Prod.fst := List.getElem?_map ..
  have hget : m.names[i]? = some name → m.get? name = m.entries[i]?.map Prod.snd := fun hi => by
    unfold IndexedBindings.get?
    rw [(h.position name i).2 hi]
    rfl
  constructor
  · intro hentry
    rw [hentry] at hname hget
    exact ⟨hname, hget hname⟩
  · rintro ⟨hi, hvalue⟩
    rw [hget hi] at hvalue
    rw [hname] at hi
    cases hentry : m.entries[i]? with
    | none => exact nomatch hentry ▸ hi
    | some entry =>
      rw [hentry] at hi hvalue
      exact congrArg some (Prod.ext (Option.some.inj hi) (Option.some.inj hvalue))

theorem keeps_of_implements {m : IndexedBindings V} {history : List (String × V)}
    (h : Bindings.Implements m (Bindings.ofList history)) : Keeps m history where
  nodup := h.names ▸ h.nodup
  position := h.position
  names := h.names.trans (Bindings.names_ofList history)
  entries := entries_iff h
  get? name := (h.get? name).trans (Bindings.get?_ofList history name)
  contains name := by
    rw [h.contains, Bindings.contains_iff, Bindings.names_ofList, List.mem_eraseDups]

/-- A map that is built by any changes keeps what was bound since it was last collected. To bind
another name returns the value that it replaces, and is kept in turn. Two such maps are equal
exactly if their entries are, in order, and to collect the entries gives the same map. The map that
runs, without an index, has the same entries and answers alike. -/
theorem after_insertionOrdered [BEq V] (changes : List (Change V)) :
    Keeps (after changes) (Change.written changes) ∧
      (∀ name value,
        ((after changes).insert name value).1 = (after changes).get? name ∧
          Keeps ((after changes).insert name value).2
            (Change.written changes ++ [(name, value)])) ∧
      (∀ others, (after changes == after others) =
        ((after changes).entries == (after others).entries)) ∧
      ofList (after changes).entries = after changes ∧
      (after changes).entries = (Bindings.after changes).entries ∧
      ∀ name, (after changes).index[name]? = (Bindings.after changes).index? name ∧
        (after changes).get? name = (Bindings.after changes).get? name ∧
        (after changes).contains name = (Bindings.after changes).contains name := by
  have h : Bindings.Implements (after changes) (Bindings.after changes) := .after changes
  have hhistory := h
  rw [Bindings.after_eq_ofList] at hhistory
  refine ⟨keeps_of_implements hhistory, fun name value => ⟨?_, ?_⟩, fun others => ?_, ?_, h.entries,
    fun name => ⟨h.index name, h.get? name, h.contains name⟩⟩
  · rw [(h.insert name value).1, h.get?]
    rfl
  · refine keeps_of_implements ?_
    rw [Bindings.ofList_concat]
    exact (hhistory.insert name value).2
  · exact h.beq_eq (.after others)
  · exact h.collect_entries

end IndexedBindings

end RangeRules
