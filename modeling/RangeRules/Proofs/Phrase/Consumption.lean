import RangeRules.Proofs.Phrase.Relocation
import RangeRules.Proofs.Program.Layout

/-!
# The tokens of a phrase

A derivation takes some tokens and leaves the rest. What it takes spells the same whatever the rest
is, except that an expression may end where the rest starts. The numbers and names of a phrase are
among the tokens taken, and these lie between the start and the end of the phrase.
-/
namespace RangeRules

open Token (Ordered startOf)

namespace Token

theorem startOf_append {consumed : List Token} (h : consumed ≠ []) (finish finish' : Nat)
    (rest rest' : List Token) :
    startOf finish (consumed ++ rest) = startOf finish' (consumed ++ rest') := by
  cases consumed with
  | nil => exact absurd rfl h
  | cons t ts => rfl

theorem Ordered.append {stop mid offset : Nat} {ts us : List Token} (h : Ordered mid offset ts)
    (h' : Ordered stop mid us) : Ordered stop offset (ts ++ us) := by
  induction ts generalizing offset with
  | nil => exact h'.mono h
  | cons t ts ih => exact ⟨h.1, h.2.1, ih h.2.2⟩

theorem Ordered.of_append {stop offset : Nat} {ts us : List Token}
    (h : Ordered stop offset (ts ++ us)) : ∃ mid, Ordered mid offset ts ∧ Ordered stop mid us := by
  induction ts generalizing offset with
  | nil => exact ⟨offset, Nat.le_refl offset, h⟩
  | cons t ts ih =>
    obtain ⟨hstart, hnonempty, hrest⟩ := h
    obtain ⟨mid, hts, hus⟩ := ih hrest
    exact ⟨mid, ⟨hstart, hnonempty, hts⟩, hus⟩

theorem Ordered.within {stop offset : Nat} {ts : List Token} (h : Ordered stop offset ts) :
    offset ≤ stop ∧ ∀ t ∈ ts, offset ≤ t.span.start ∧ t.span.stop ≤ stop := by
  induction ts generalizing offset with
  | nil => exact ⟨h, nofun⟩
  | cons t ts ih =>
    obtain ⟨hstart, hnonempty, hrest⟩ := h
    obtain ⟨hstop, hall⟩ := ih hrest
    refine ⟨by omega, List.forall_mem_cons.2 ⟨⟨hstart, hstop⟩, fun u hu => ?_⟩⟩
    have hbounds := hall u hu
    omega

end Token

namespace Phrase

/-! ### Whatever comes after -/

mutual

/-- An operand does not depend on what comes after it. -/
theorem DerivesOperand.followed {finish : Nat} {ts rest : List Token} {t : Term} :
    DerivesOperand finish ts t rest → ∃ consumed, consumed ≠ [] ∧ ts = consumed ++ rest ∧
      ∀ finish' tail, DerivesOperand finish' (consumed ++ tail) t tail
  | .boolean b s rest =>
    ⟨[⟨.boolean b, s⟩], List.cons_ne_nil _ _, rfl, fun _ tail => .boolean b s tail⟩
  | .number digits s rest =>
    ⟨[⟨.number digits, s⟩], List.cons_ne_nil _ _, rfl, fun _ tail => .number digits s tail⟩
  | .variable name s rest =>
    ⟨[⟨.name name, s⟩], List.cons_ne_nil _ _, rfl, fun _ tail => .variable name s tail⟩
  | .source name s d n rest =>
    ⟨[⟨.keyword .this, s⟩, ⟨.dot, d⟩, ⟨.name name, n⟩], List.cons_ne_nil _ _, rfl,
      fun _ tail => .source name s d n tail⟩
  | .group s c h => by
    obtain ⟨consumed, -, rfl, hfollowed⟩ := h.followed
    refine ⟨⟨.lparen, s⟩ :: (consumed ++ [⟨.rparen, c⟩]), List.cons_ne_nil _ _, by simp,
      fun finish' tail => ?_⟩
    obtain ⟨inner, hinner, -, hsame⟩ := hfollowed finish' (⟨.rparen, c⟩ :: tail)
    obtain rfl := hsame rfl
    rw [List.cons_append, List.append_assoc]
    exact .group s c hinner

theorem DerivesLinks.followed {finish : Nat} {ts rest : List Token} {links : Links} :
    DerivesLinks finish ts links rest → ∃ consumed, ts = consumed ++ rest ∧
      ∀ finish' tail, DerivesLinks finish' (consumed ++ tail) links tail
  | .nil ts => ⟨[], rfl, fun _ tail => .nil tail⟩
  | .cons op s head tail => by
    obtain ⟨first, -, rfl, hhead⟩ := head.followed
    obtain ⟨others, rfl, htail⟩ := tail.followed
    refine ⟨⟨.operator (.arithmetic op), s⟩ :: (first ++ others), by simp, fun finish' after => ?_⟩
    rw [List.cons_append, List.append_assoc]
    exact .cons op s (hhead finish' _) (htail finish' after)

theorem DerivesBranches.followed {finish : Nat} {ts rest : List Token} {branches : PhraseBranches}
    {stop : Nat} : DerivesBranches finish ts branches stop rest →
      ∃ consumed, consumed ≠ [] ∧ ts = consumed ++ rest ∧ ∀ finish' tail, ∃ branches' stop',
        DerivesBranches finish' (consumed ++ tail) branches' stop' tail ∧
        branches'.relocate .starts = branches.relocate .starts ∧
        (startOf finish' tail = startOf finish rest → branches' = branches ∧ stop' = stop)
  | .otherwise s h => by
    obtain ⟨consumed, -, rfl, hfollowed⟩ := h.followed
    refine ⟨⟨.keyword .otherwise, s⟩ :: consumed, List.cons_ne_nil _ _, rfl, fun finish' tail => ?_⟩
    obtain ⟨value, hvalue, hstarts, hsame⟩ := hfollowed finish' tail
    refine ⟨_, _, .otherwise s hvalue, congrArg PhraseBranches.otherwise hstarts, fun hnext => ?_⟩
    rw [hsame hnext]
    exact ⟨rfl, rfl⟩
  | @DerivesBranches.clause _ ts mid more rest p c branches stop s predicate consequent tail => by
    obtain ⟨first, -, rfl, hpredicate⟩ := predicate.followed
    obtain ⟨second, hsecond, rfl, hconsequent⟩ := consequent.followed
    obtain ⟨others, hothers, rfl, htail⟩ := tail.followed
    refine ⟨⟨.keyword .when, s⟩ :: (first ++ (second ++ others)), List.cons_ne_nil _ _, by simp,
      fun finish' after => ?_⟩
    obtain ⟨p', hp, -, hsame⟩ := hpredicate finish' (second ++ (others ++ after))
    obtain rfl := hsame (Token.startOf_append hsecond ..)
    obtain ⟨c', hc, -, hsame⟩ := hconsequent finish' (others ++ after)
    obtain rfl := hsame (Token.startOf_append hothers ..)
    obtain ⟨branches', stop', hbranches, hstarts, hsame⟩ := htail finish' after
    refine ⟨.clause p' c' branches', stop', ?_, ?_, fun hnext => ?_⟩
    · simpa only [List.cons_append, List.append_assoc] using .clause s hp hc hbranches
    · rw [PhraseBranches.relocate, hstarts]
      rfl
    · obtain ⟨rfl, rfl⟩ := hsame hnext
      exact ⟨rfl, rfl⟩

/-- An expression starts the same whatever comes after it, and is the same if that starts alike. -/
theorem Derives.followed {finish : Nat} {ts rest : List Token} {x : Phrase} :
    Derives finish ts x rest → ∃ consumed, consumed ≠ [] ∧ ts = consumed ++ rest ∧
      ∀ finish' tail, ∃ x', Derives finish' (consumed ++ tail) x' tail ∧
        x'.relocate .starts = x.relocate .starts ∧
        (startOf finish' tail = startOf finish rest → x' = x)
  | @Derives.chain _ ts mid rest t links head tail => by
    obtain ⟨first, hfirst, rfl, hhead⟩ := head.followed
    obtain ⟨others, rfl, htail⟩ := tail.followed
    have hne : first ++ others ≠ [] := List.append_ne_nil_of_left_ne_nil hfirst others
    rw [← List.append_assoc]
    refine ⟨first ++ others, hne, rfl, fun finish' after => ?_⟩
    have h := Derives.chain (hhead finish' _) (htail finish' after)
    rw [← List.append_assoc, Token.startOf_append hne finish' finish after rest] at h
    refine ⟨_, h, rfl, fun hnext => ?_⟩
    rw [hnext]
  | @Derives.compare _ ts mid right mid' rest t t' links links' op s head tail head' tail' => by
    obtain ⟨first, hfirst, rfl, hhead⟩ := head.followed
    obtain ⟨others, rfl, htail⟩ := tail.followed
    obtain ⟨first', hfirst', rfl, hhead'⟩ := head'.followed
    obtain ⟨others', rfl, htail'⟩ := tail'.followed
    have hall : ∀ after, first ++ (others ++ ⟨.operator (.comparison op), s⟩ ::
        (first' ++ (others' ++ after))) = first ++ (others ++ ⟨.operator (.comparison op), s⟩ ::
          (first' ++ others')) ++ after := fun after => by
      simp
    generalize hconsumed : first ++ (others ++ ⟨.operator (.comparison op), s⟩ ::
      (first' ++ others')) = consumed at hall
    have hne : consumed ≠ [] := hconsumed ▸ List.append_ne_nil_of_left_ne_nil hfirst _
    rw [hall rest]
    refine ⟨consumed, hne, rfl, fun finish' after => ?_⟩
    have h := Derives.compare op s (hhead finish' _) (htail finish' _) (hhead' finish' _)
      (htail' finish' after)
    rw [hall after, Token.startOf_append hne finish' finish after rest] at h
    refine ⟨_, h, rfl, fun hnext => ?_⟩
    rw [hnext]
  | .choose s h => by
    obtain ⟨consumed, hne, htokens, hfollowed⟩ := h.followed
    refine ⟨consumed, hne, htokens, fun finish' tail => ?_⟩
    obtain ⟨branches', stop', hbranches, hstarts, hsame⟩ := hfollowed finish' tail
    cases consumed with
    | nil => exact absurd rfl hne
    | cons first consumed =>
      obtain ⟨rfl, -⟩ := List.cons.inj htokens
      refine ⟨_, .choose s hbranches, ?_, fun hnext => ?_⟩
      · rw [Phrase.relocate, hstarts]
        rfl
      · obtain ⟨rfl, rfl⟩ := hsame hnext
        rfl

end

theorem relocate_starts_of_body {x x' : Phrase} (h : x'.relocate .starts = x.relocate .starts)
    (isSink : Bool) (name : String) (start : Nat) :
    (WrittenStatement.mk isSink name ⟨start, x'.span.stop⟩ x').relocate .starts =
      (WrittenStatement.mk isSink name ⟨start, x.span.stop⟩ x).relocate .starts := by
  unfold WrittenStatement.relocate
  dsimp only
  rw [h]
  rfl

theorem DerivesStatement.followed {finish : Nat} {ts rest : List Token} {s : WrittenStatement}
    (h : DerivesStatement finish ts s rest) : ∃ consumed, ts = consumed ++ rest ∧
      ∀ finish' tail, ∃ s', DerivesStatement finish' (consumed ++ tail) s' tail ∧
        s'.relocate .starts = s.relocate .starts ∧
        (startOf finish' tail = startOf finish rest → s' = s) := by
  cases h with
  | assign name s e h =>
    obtain ⟨consumed, -, rfl, hfollowed⟩ := h.followed
    refine ⟨_ :: _ :: consumed, rfl, fun finish' tail => ?_⟩
    obtain ⟨body, hbody, hstarts, hsame⟩ := hfollowed finish' tail
    refine ⟨_, .assign name s e hbody, relocate_starts_of_body hstarts .., fun hnext => ?_⟩
    rw [hsame hnext]
  | sink name s e h =>
    obtain ⟨consumed, -, rfl, hfollowed⟩ := h.followed
    refine ⟨_ :: _ :: consumed, rfl, fun finish' tail => ?_⟩
    obtain ⟨body, hbody, hstarts, hsame⟩ := hfollowed finish' tail
    refine ⟨_, .sink name s e hbody, relocate_starts_of_body hstarts .., fun hnext => ?_⟩
    rw [hsame hnext]

/-- Statements start the same whatever comes after them, and are the same if that starts alike. -/
theorem DerivesStatements.followed {finish : Nat} {ts rest : List Token}
    {written : List WrittenStatement} (h : DerivesStatements finish ts written rest) :
    ∃ consumed, ts = consumed ++ rest ∧ ∀ finish' tail, ∃ written',
      DerivesStatements finish' (consumed ++ tail) written' tail ∧
      written'.map (·.relocate .starts) = written.map (·.relocate .starts) ∧
      (startOf finish' tail = startOf finish rest → written' = written) := by
  induction h with
  | nil ts => exact ⟨[], rfl, fun _ tail => ⟨[], .nil tail, rfl, fun _ => rfl⟩⟩
  | @cons ts mid rest s written head tail ih =>
    obtain ⟨first, rfl, hhead⟩ := head.followed
    obtain ⟨others, rfl, htail⟩ := ih
    refine ⟨first ++ others, (List.append_assoc ..).symm, fun finish' after => ?_⟩
    obtain ⟨s', hs, hstarts, hsame⟩ := hhead finish' (others ++ after)
    obtain ⟨written', hwritten, hstarts', hsame'⟩ := htail finish' after
    refine ⟨s' :: written', ?_, ?_, fun hnext => ?_⟩
    · rw [List.append_assoc]
      exact .cons hs hwritten
    · rw [List.map_cons, List.map_cons, hstarts, hstarts']
    · have hmid : startOf finish' (others ++ after) = startOf finish (others ++ rest) := by
        cases others with
        | nil => exact hnext
        | cons t others => rfl
      rw [hsame hmid, hsame' hnext]

/-! ### From the start to the end -/

/--
Tokens between two offsets, among them the given ones, have been taken from `ts`, and `rest` is
left.
-/
def Consumes (taken : List Token) (offset stop : Nat) (ts rest : List Token) : Prop :=
  ∃ consumed, ts = consumed ++ rest ∧ taken ⊆ consumed ∧ Ordered stop offset consumed

namespace Consumes

theorem token {t : Token} {offset : Nat} (rest : List Token) (hstart : offset ≤ t.span.start)
    (hnonempty : t.span.start < t.span.stop) : Consumes [t] offset t.span.stop (t :: rest) rest :=
  ⟨[t], rfl, List.Subset.refl _, hstart, hnonempty, Nat.le_refl _⟩

theorem trans {taken taken' ts mid rest : List Token} {offset middle stop : Nat}
    (h : Consumes taken offset middle ts mid) (h' : Consumes taken' middle stop mid rest) :
    Consumes (taken ++ taken') offset stop ts rest := by
  obtain ⟨consumed, rfl, hsubset, hordered⟩ := h
  obtain ⟨consumed', rfl, hsubset', hordered'⟩ := h'
  refine ⟨consumed ++ consumed', (List.append_assoc ..).symm, ?_, hordered.append hordered'⟩
  exact List.append_subset.2 ⟨List.subset_append_of_subset_left _ hsubset,
    List.subset_append_of_subset_right _ hsubset'⟩

theorem mono {taken taken' ts rest : List Token} {offset stop stop' : Nat}
    (h : Consumes taken offset stop ts rest) (hsubset : taken' ⊆ taken) (hle : stop ≤ stop') :
    Consumes taken' offset stop' ts rest := by
  obtain ⟨consumed, hts, htaken, hordered⟩ := h
  have hend : Ordered stop' stop [] := hle
  have hall := hordered.append hend
  rw [List.append_nil] at hall
  exact ⟨consumed, hts, List.Subset.trans hsubset htaken, hall⟩

end Consumes

/-- The atoms of a chain's operands after the first. -/
def linkAtoms (links : Links) : List Token := links.flatMap (·.2.atoms)

/-- Precedence only groups neighbours. -/
theorem atoms_resolveFrom (waiting : Option (Term × Arithmetic)) (product : Term) (links : Links) :
    (Term.resolveFrom waiting product links).atoms =
      (Term.complete waiting product).atoms ++ linkAtoms links := by
  induction links generalizing waiting product with
  | nil => exact (List.append_nil _).symm
  | cons link rest ih =>
    obtain ⟨op, t⟩ := link
    have hcons : linkAtoms ((op, t) :: rest) = t.atoms ++ linkAtoms rest := rfl
    rw [Term.resolveFrom, hcons, ← List.append_assoc]
    split
    · rw [ih]
      cases waiting with
      | none => rfl
      | some w =>
        simp only [Term.complete, Term.atoms, List.append_assoc]
    · rw [ih]
      rfl

theorem atoms_resolve (first : Term) (links : Links) :
    (first.resolve links).atoms = first.atoms ++ linkAtoms links :=
  atoms_resolveFrom none first links

mutual

theorem DerivesOperand.consumes {finish : Nat} {ts rest : List Token} {t : Term} :
    DerivesOperand finish ts t rest → ∀ {offset : Nat}, Ordered finish offset ts →
      Consumes t.atoms offset t.span.stop ts rest
  | .boolean b s rest, _, h => (Consumes.token rest h.1 h.2.1).mono nofun (Nat.le_refl _)
  | .number digits s rest, _, h => .token rest h.1 h.2.1
  | .variable name s rest, _, h => .token rest h.1 h.2.1
  | .source name s d n rest, _, h => by
    obtain ⟨hs, hs', hd, hd', hn, hn', -⟩ := h
    have hall := ((Consumes.token _ hs hs').trans (.token _ hd hd')).trans (.token rest hn hn')
    exact hall.mono nofun (Nat.le_refl _)
  | .group s c hinner, _, h => by
    obtain ⟨hs, hs', hts⟩ := h
    obtain ⟨-, -, -, hc, hc', -⟩ := hinner.laid hts
    have hall := ((Consumes.token _ hs hs').trans (hinner.consumes hts)).trans (.token _ hc hc')
    refine hall.mono (fun a ha => ?_) (Nat.le_refl _)
    exact List.mem_append_left _ (List.mem_append_right _ ha)

theorem DerivesLinks.consumes {finish : Nat} {ts rest : List Token} {links : Links} :
    DerivesLinks finish ts links rest → ∀ {offset : Nat}, Ordered finish offset ts →
      Consumes (linkAtoms links) offset (Term.stopOf offset links) ts rest
  | .nil ts, offset, h => ⟨[], rfl, nofun, Nat.le_refl offset⟩
  | .cons op s head tail, _, h => by
    obtain ⟨hs, hs', hts⟩ := h
    obtain ⟨-, -, hmid⟩ := head.laid hts
    have hall := (Consumes.token _ hs hs').trans ((head.consumes hts).trans (tail.consumes hmid))
    exact hall.mono (fun a ha => List.mem_append_right _ ha) (Nat.le_refl _)

theorem DerivesBranches.consumes {finish : Nat} {ts rest : List Token} {branches : PhraseBranches}
    {stop : Nat} : DerivesBranches finish ts branches stop rest → ∀ {offset : Nat},
      Ordered finish offset ts → Consumes branches.atoms offset stop ts rest
  | .otherwise s hvalue, _, h => by
    obtain ⟨hs, hs', hts⟩ := h
    have hall := (Consumes.token _ hs hs').trans (hvalue.consumes hts)
    exact hall.mono (fun a ha => List.mem_append_right _ ha) (Nat.le_refl _)
  | .clause s hp hc htail, _, h => by
    obtain ⟨hs, hs', hts⟩ := h
    obtain ⟨-, -, -, hmid⟩ := hp.laid hts
    obtain ⟨-, -, -, hmore⟩ := hc.laid hmid
    have hparts := ((hp.consumes hts).trans (hc.consumes hmid)).trans (htail.consumes hmore)
    have hall := (Consumes.token _ hs hs').trans hparts
    exact hall.mono (fun a ha => List.mem_append_right _ ha) (Nat.le_refl _)

/-- The tokens of a phrase, among them its atoms, lie before its end. -/
theorem Derives.consumes {finish : Nat} {ts rest : List Token} {x : Phrase} :
    Derives finish ts x rest → ∀ {offset : Nat}, Ordered finish offset ts →
      Consumes x.atoms offset x.span.stop ts rest
  | .chain head tail, _, h => by
    obtain ⟨-, -, hmid⟩ := head.laid h
    obtain ⟨-, hrest⟩ := tail.laid hmid
    refine ((head.consumes h).trans (tail.consumes hmid)).mono ?_ hrest.startOf.1
    rw [Phrase.atoms, atoms_resolve]
    exact List.Subset.refl _
  | .compare op s head tail head' tail', _, h => by
    obtain ⟨-, -, hmid⟩ := head.laid h
    obtain ⟨-, hs, hs', hright⟩ := tail.laid hmid
    obtain ⟨-, -, hmid'⟩ := head'.laid hright
    obtain ⟨-, hrest⟩ := tail'.laid hmid'
    have hleft := (head.consumes h).trans (tail.consumes hmid)
    have hother := (head'.consumes hright).trans (tail'.consumes hmid')
    have hstop := (ordered_comparedStop hrest).1
    rw [Term.span_resolve] at hstop
    refine ((hleft.trans (.token _ hs hs')).trans hother).mono ?_ hstop
    rw [Phrase.atoms, Term.atoms, atoms_resolve, atoms_resolve]
    exact List.append_subset.2 ⟨fun a ha => List.mem_append_left _ (List.mem_append_left _ ha),
      fun a ha => List.mem_append_right _ ha⟩
  | .choose s hbranches, _, h => hbranches.consumes h

end

/-- A statement begins with its name, and the atoms of its expression lie in it. -/
theorem DerivesStatement.within {finish offset : Nat} {ts rest : List Token} {s : WrittenStatement}
    (h : DerivesStatement finish ts s rest) (hts : Ordered finish offset ts) :
    (∃ stop after, ts = ⟨.name s.name, ⟨s.span.start, stop⟩⟩ :: after) ∧
      ∀ a ∈ s.body.atoms, a ∈ ts ∧ s.span.start ≤ a.span.start ∧ a.span.stop ≤ s.span.stop := by
  cases h with
  | assign name s e hbody | sink name s e hbody =>
    obtain ⟨hs, hs', he, he', hts⟩ := hts
    obtain ⟨consumed, hafter, hatoms, hordered⟩ := hbody.consumes hts
    refine ⟨⟨s.stop, _, rfl⟩, fun a ha => ?_⟩
    obtain ⟨hstart, hstop⟩ := hordered.within.2 a (hatoms ha)
    have hmem := List.mem_append_left rest (hatoms ha)
    rw [← hafter] at hmem
    dsimp only at hs' he he' hstart ⊢
    exact ⟨List.mem_cons_of_mem _ (List.mem_cons_of_mem _ hmem), by omega, hstop⟩

/-! ### Statements in sequence -/

theorem DerivesStatements.append {finish : Nat} {ts mid rest : List Token}
    {written written' : List WrittenStatement} (h : DerivesStatements finish ts written mid)
    (h' : DerivesStatements finish mid written' rest) :
    DerivesStatements finish ts (written ++ written') rest := by
  induction h with
  | nil ts => exact h'
  | cons head tail ih => exact .cons head (ih h')

theorem DerivesStatements.of_append {finish : Nat} {ts rest : List Token}
    {written written' : List WrittenStatement}
    (h : DerivesStatements finish ts (written ++ written') rest) :
    ∃ mid, DerivesStatements finish ts written mid ∧
      DerivesStatements finish mid written' rest := by
  induction written generalizing ts with
  | nil => exact ⟨ts, .nil ts, h⟩
  | cons s written ih =>
    cases h with
    | cons head tail =>
      obtain ⟨mid, hmid, hrest⟩ := ih tail
      exact ⟨mid, .cons head hmid, hrest⟩

end Phrase

end RangeRules
