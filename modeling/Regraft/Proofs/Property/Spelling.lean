import Regraft.Proofs.Property.Grammar

/-!
# Regraft.Proofs.Property.Spelling -- a property does not depend on the spelling of its line

A text of the same squeezed form as a declaration declares the same property (`Declares.respaced`): each
part of a declaration keeps its shape under it, and the cut between two parts is found again, since a
part ends in ink or the next one begins with ink (`squeeze_split`).  So a line may be squeezed before
its property is read, and a property that some line declares is declared by its canonical line
(`Property.written`) as well: the type that is kept is a type again.
-/

namespace Regraft

set_option autoImplicit false

open Text Reader
open Signature (IsGap IsIdent StartsInked startsInked_cons)

namespace Property

variable {s t : Text} {p : Property}

/-! ## Parts of the same squeezed form -/

theorem blank_respaced (same : squeeze s = squeeze t) (h : isBlankText s = true) :
    isBlankText t = true := by
  rw [← isBlankText_squeeze, ← same, isBlankText_squeeze]
  exact h

theorem gap_respaced (same : squeeze s = squeeze t) (h : IsGap s) : IsGap t := by
  refine ⟨?_, blank_respaced same h.2⟩
  rintro rfl
  exact h.1 (squeeze_eq_nil.1 same)

theorem Modifiers.respaced (same : squeeze s = squeeze t) (h : Modifiers s) : Modifiers t := by
  induction h generalizing t with
  | nil =>
      rw [squeeze_eq_nil.1 same.symm]
      exact .nil
  | @cons word gap more hw hg hm ih =>
      obtain ⟨_, rfl, behind⟩ := squeeze_split_inked same (inked_of_isIdent hw.isIdent)
      obtain ⟨gap', more', rfl, hgap, hmore⟩ := squeeze_split behind (Or.inr hm.inked)
      exact .cons hw (gap_respaced hgap hg) (ih hmore)

theorem IsArguments.respaced (same : squeeze s = squeeze t) (h : IsArguments s) : IsArguments t := by
  obtain ⟨gap, inner, rfl, hg, some_, hi⟩ := h
  obtain ⟨gap', _, rfl, hgap, opened⟩ := squeeze_split same (Or.inr (startsInked_cons (by decide) _))
  obtain ⟨_, rfl, behind⟩ := squeeze_split_inked (s := ['<']) opened (not_kind_of_all (by decide))
  obtain ⟨inner', _, rfl, hinner, closed⟩ :=
    squeeze_split behind (Or.inr (startsInked_cons (by decide) []))
  obtain rfl := eq_of_squeeze closed (not_kind_of_all (by decide))
  refine ⟨gap', inner', rfl, blank_respaced hgap hg, ?_, fun c m => ?_⟩
  · rintro rfl
    exact some_ (squeeze_eq_nil.1 hinner)
  · cases blank : isBlank c with
    | true => rw [isArgument, blank, Bool.or_true, Bool.true_or]
    | false =>
        have kept : c ∈ squeeze inner := hinner ▸ (mem_squeeze blank).2 m
        exact hi c ((mem_squeeze blank).1 kept)

theorem IsType.respaced (same : squeeze s = squeeze t) (h : IsType s) : IsType t := by
  obtain ⟨name, args, marks, rfl, hn, ha, hm⟩ := h
  obtain ⟨_, rfl, behind⟩ :=
    squeeze_split_inked same fun c m => inked_of_isDotted (hn.dotted c m)
  obtain ⟨args', _, rfl, hargs, hmarks⟩ := squeeze_split behind
    (Or.inr fun c head => hm.inked c (List.mem_of_mem_head? head))
  obtain rfl := eq_of_squeeze hmarks hm.inked
  refine ⟨name, args', _, rfl, hn, ?_, hm⟩
  rcases ha with rfl | ha
  · exact Or.inl (squeeze_eq_nil.1 hargs.symm)
  · exact Or.inr (ha.respaced hargs)

theorem IsAccessors.respaced (same : squeeze s = squeeze t) (h : IsAccessors s) : IsAccessors t := by
  obtain ⟨a, b, c, rfl, ha, hb, hc⟩ := h
  obtain ⟨_, rfl, opened⟩ := squeeze_split_inked (s := ['{']) same (not_kind_of_all (by decide))
  obtain ⟨a', _, rfl, hsame, get⟩ := squeeze_split opened (Or.inr (startsInked_cons (by decide) _))
  obtain ⟨_, rfl, got⟩ := squeeze_split_inked get (not_kind_of_all (by decide))
  obtain ⟨b', _, rfl, hsame', set⟩ := squeeze_split got (Or.inr (startsInked_cons (by decide) _))
  obtain ⟨_, rfl, behind⟩ := squeeze_split_inked set (not_kind_of_all (by decide))
  obtain ⟨c', _, rfl, hsame'', closed⟩ :=
    squeeze_split behind (Or.inr (startsInked_cons (by decide) []))
  obtain rfl := eq_of_squeeze closed (not_kind_of_all (by decide))
  exact ⟨a', b', c', rfl, blank_respaced hsame ha, blank_respaced hsame' hb, blank_respaced hsame'' hc⟩

theorem Named.respaced (same : squeeze s = squeeze t) (h : Named s p) : Named t p := by
  cases h with
  | @intro m type gap name behind hm ht hg hn hb =>
      obtain ⟨m', _, rfl, hmodifiers, typed⟩ := squeeze_split same (Or.inr (ht.startsInked _))
      obtain ⟨type', _, rfl, htype, spaced⟩ := squeeze_split typed (Or.inl ht.endsInked)
      obtain ⟨gap', _, rfl, hgap, named⟩ := squeeze_split spaced (Or.inr (hn.startsInked _))
      obtain ⟨behind', rfl, hbehind⟩ := squeeze_split_inked named (inked_of_isIdent hn)
      rw [htype]
      exact .intro (hm.respaced hmodifiers) (ht.respaced htype) (gap_respaced hgap hg) hn
        (blank_respaced hbehind hb)

theorem Declares.respaced (same : squeeze s = squeeze t) (h : Declares s p) : Declares t p := by
  cases h with
  | @intro lead gap named accessors _ hl hg hn ha =>
      have brace : StartsInked accessors := by
        obtain ⟨a, b, c, rfl, -⟩ := ha
        exact startsInked_cons (by decide) _
      obtain ⟨lead', _, rfl, hlead, word⟩ :=
        squeeze_split same (Or.inr (startsInked_cons (by decide) _))
      obtain ⟨_, rfl, behind⟩ := squeeze_split_inked word (not_kind_of_all (by decide))
      obtain ⟨gap', _, rfl, hgap, rest⟩ := squeeze_split behind (Or.inr (hn.startsInked _))
      obtain ⟨named', accessors', rfl, hnamed, haccessors⟩ := squeeze_split rest (Or.inr brace)
      exact .intro (blank_respaced hlead hl) (gap_respaced hgap hg) (hn.respaced hnamed)
        (ha.respaced haccessors)

/-! ## Spellings of a line -/

/-- Lines of the same squeezed form declare the same property. -/
theorem parse?_respaced {line line' : Text} (same : squeeze line = squeeze line') :
    parse? line = parse? line' := by
  have carried {line line' : Text} (same : squeeze line = squeeze line') (p : Property)
      (found : parse? line = some p) : parse? line' = some p := by
    obtain ⟨d, rest, rfl, h⟩ := parse?_eq_some.1 found
    obtain ⟨d', rest', rfl, hd, -⟩ := squeeze_split same (Or.inl h.endsInked)
    exact parse?_eq_some.2 ⟨d', rest', rfl, h.respaced hd⟩
  exact Option.ext fun p => ⟨carried same p, carried same.symm p⟩

/-- The canonical line of a property. -/
def written (p : Property) : Text :=
  "public ".toList ++ (p.type ++ (' ' :: (p.name ++ " \x7b get; set; \x7d".toList)))

/-- The parts of a canonical line, cut like those of a declaration. -/
theorem written_eq (name type : Text) :
    written ⟨name, type⟩ = [] ++ ("public".toList ++ ([' '] ++
      ((type ++ ([' '] ++ (name ++ [' ']))) ++ "\x7b get; set; \x7d".toList))) := by
  have word : "public ".toList = "public".toList ++ [' '] := by decide
  have block : " \x7b get; set; \x7d".toList = ' ' :: "\x7b get; set; \x7d".toList := by decide
  show "public ".toList ++ (type ++ (' ' :: (name ++ " \x7b get; set; \x7d".toList))) = _
  rw [word, block]
  simp only [List.append_assoc, List.nil_append, List.cons_append]

/-- A type and a name are declared by their canonical line. -/
theorem declares_written {type name : Text} (ht : IsType type) (hn : IsIdent name) :
    Declares (written ⟨name, type⟩) ⟨name, squeeze type⟩ := by
  have space : isBlankText [' '] = true := by decide
  have gap : IsGap [' '] := ⟨List.cons_ne_nil _ _, space⟩
  have accessors : IsAccessors "\x7b get; set; \x7d".toList :=
    ⟨[' '], [' '], [' '], by decide, space, space, space⟩
  rw [written_eq]
  exact .intro isBlankText_nil gap (.intro .nil ht gap hn space) accessors

/-- White space counts for nothing but that it is there, and a property that a line declares is
declared by its canonical line. -/
theorem parse?_spelling :
    (∀ line, parse? (squeeze line) = parse? line) ∧
      ∀ line p, parse? line = some p → parse? p.written = some p := by
  refine ⟨fun line => parse?_respaced (squeeze_squeeze line), fun line p found => ?_⟩
  obtain ⟨d, rest, -, h⟩ := parse?_eq_some.1 found
  cases h with
  | intro _ _ named =>
      cases named with
      | @intro m type gap name behind _ ht _ hn =>
          -- the kept type is a type again, and squeezing it once more changes nothing
          have type' : IsType (squeeze type) := ht.respaced (squeeze_squeeze type).symm
          have declared := declares_written type' hn
          rw [squeeze_squeeze] at declared
          exact parse?_eq_some.2 ⟨_, [], (List.append_nil _).symm, declared⟩

/-- A line with a modifier and a type called like the other one, and with white space of all kinds. -/
def spacedLine : Text :=
  "\tpublic  required\tvirtual \u3000<string,\t\tList< int ?> >[]?\n Map\x7bget;  set;\x7d // \x7b".toList

def spacedProperty : Property where
  name := "Map".toList
  type := "virtual <string, List< int ?> >[]?".toList

theorem parse?_spelling_spaced :
    parse? spacedLine = some spacedProperty ∧ squeeze spacedLine ≠ spacedLine ∧
      parse? (squeeze spacedLine) = some spacedProperty ∧
      parse? spacedProperty.written = some spacedProperty := by
  have found : parse? spacedLine = some spacedProperty := by decide +kernel
  obtain ⟨squeezed, canonical⟩ := parse?_spelling
  exact ⟨found, by decide +kernel, (squeezed spacedLine).trans found, canonical _ _ found⟩

end Property

end Regraft
