import Regraft.Marker.Basic
import Regraft.Notice
import Regraft.Reader

/-!
# Regraft.Marker.Strip -- taking marked regions and comment lines out of a body

A region from an opening marker to the next closing marker is cut out whole.  An opening marker
that no closing marker follows costs its own line only, so the code below it stays.  Lines that
start with the lead are cut out anywhere.  Each cut can bring a new marker together, so the round
is repeated until it changes nothing; every round only deletes (`stripOnce_sublist`), which is
why the repetition ends and why its result is left alone by a further round
(`stripOnce_strip`).
-/

namespace Regraft.MarkerPair

set_option autoImplicit false

/-- The text after the rest of a line and the line feed that ends it.  A carriage return without
a line feed stops the line and is kept. -/
def afterLine : Text → Text
  | [] => []
  | '\n' :: t => t
  | '\r' :: '\n' :: t => t
  | '\r' :: t => '\r' :: t
  | _ :: t => afterLine t

/-- A text without the line it ends in, if that line is blank. -/
def dropBlankTail (t : Text) : Text :=
  let (whole, last) := Text.splitLastLine t
  if Text.isBlankText last then whole else t

/-- What stays after an opening marker that has no partner: the rest of the marker's line is
gone, or the marker alone where it has no line of its own because a lone carriage return
opens it. -/
def dropMarker (m : MarkerPair) (after : Text) : Text :=
  let here := m.opening ++ after
  let rest := afterLine here
  if rest.length < here.length then rest else after

/-- One cut at the first opening marker of a body. -/
inductive Cut where
  | paired (left : Text)
  | unpaired (offset : Nat) (left : Text)

def Cut.left : Cut → Text
  | .paired left => left
  | .unpaired _ left => left

/-- The offset of the opening marker, where a cut found no partner for it. -/
def Cut.offset? : Cut → Option Nat
  | .paired _ => none
  | .unpaired offset _ => some offset

/-- Cut at the first opening marker: up to the next closing marker where there is one, else the
marker's line. -/
def cut? (m : MarkerPair) (body : Text) : Option Cut :=
  match Text.cutAt? m.opening body with
  | none => none
  | some (before, after) =>
      match Text.cutAt? m.closing after with
      | some (_, rest) => some (.paired (before ++ rest))
      | none => some (.unpaired before.length (dropBlankTail before ++ m.dropMarker after))

theorem afterLine_suffix (t : Text) : afterLine t <:+ t := by
  fun_induction afterLine t with
  | case1 => exact List.suffix_refl _
  | case2 t => exact List.suffix_cons ..
  | case3 t => exact ⟨['\r', '\n'], rfl⟩
  | case4 => exact List.suffix_refl _
  | case5 c t _ _ _ ih => exact ih.trans (List.suffix_cons ..)

theorem dropBlankTail_isPrefix (t : Text) : dropBlankTail t <+: t := by
  simp only [dropBlankTail]
  split
  · exact ⟨_, Text.splitLastLine_append t⟩
  · exact List.prefix_refl t

theorem opening_length_pos (m : MarkerPair) : 0 < m.opening.length :=
  List.length_pos_iff.2 m.opening_ne_nil

theorem dropMarker_suffix (m : MarkerPair) (after : Text) :
    m.dropMarker after <:+ m.opening ++ after := by
  simp only [dropMarker]
  split
  · exact afterLine_suffix _
  · exact List.suffix_append ..

theorem dropMarker_length (m : MarkerPair) (after : Text) :
    (m.dropMarker after).length < (m.opening ++ after).length := by
  have := m.opening_length_pos
  simp only [dropMarker]
  split
  · assumption
  · simp only [List.length_append]; omega

/-- What a cut takes out of a body lies behind an opening marker, and white space in front of it. -/
theorem cut?_cases {m : MarkerPair} {body : Text} {c : Cut} (h : m.cut? body = some c) :
    (∃ before inner rest, body = before ++ m.opening ++ (inner ++ m.closing ++ rest) ∧
        c.left = before ++ rest) ∨
      ∃ before after, body = before ++ m.opening ++ after ∧
        c.left = dropBlankTail before ++ m.dropMarker after := by
  simp only [cut?] at h
  split at h
  · cases h
  · rename_i before after opened
    have parts := Text.cutAt?_append opened
    split at h
    · rename_i inner rest closed
      obtain rfl := Option.some.inj h
      rw [Text.cutAt?_append closed] at parts
      exact Or.inl ⟨before, inner, rest, parts, rfl⟩
    · obtain rfl := Option.some.inj h
      exact Or.inr ⟨before, after, parts, rfl⟩

theorem cut?_sublist {m : MarkerPair} {body : Text} {c : Cut} (h : m.cut? body = some c) :
    c.left.Sublist body := by
  rcases cut?_cases h with ⟨before, inner, rest, rfl, left⟩ | ⟨before, after, rfl, left⟩
  · rw [left, List.append_assoc]
    exact (List.Sublist.refl before).append
      ((List.suffix_append ..).trans (List.suffix_append ..)).sublist
  · rw [left, List.append_assoc]
    exact (dropBlankTail_isPrefix before).sublist.append (m.dropMarker_suffix after).sublist

theorem cut?_length {m : MarkerPair} {body : Text} {c : Cut} (h : m.cut? body = some c) :
    c.left.length < body.length := by
  have positive := m.opening_length_pos
  rcases cut?_cases h with ⟨before, inner, rest, rfl, left⟩ | ⟨before, after, rfl, left⟩
  · rw [left]
    simp only [List.length_append]
    omega
  · have short := m.dropMarker_length after
    have front := (dropBlankTail_isPrefix before).length_le
    rw [left]
    simp only [List.length_append] at short ⊢
    omega

def removeRegions (m : MarkerPair) (body : Text) : Text :=
  match _h : m.cut? body with
  | none => body
  | some c => removeRegions m c.left
termination_by body.length
decreasing_by exact cut?_length _h

/-- The offsets of the opening markers without partner, each in the body it was met in. -/
def regionOffsets (m : MarkerPair) (body : Text) : List Nat :=
  match _h : m.cut? body with
  | none => []
  | some c => c.offset?.toList ++ regionOffsets m c.left
termination_by body.length
decreasing_by exact cut?_length _h

/-- A whole line that starts with the lead, with the line feed that ends it. -/
def leadLine (lead : Text) (before : Option Char) : Reader Unit := do
  Reader.when fun _ => before == none || before == some '\n'
  Reader.indent
  Reader.literal lead
  Reader.skip fun c => c != '\r' && c != '\n'
  Reader.orElse (do let _ ← Reader.lineEnd) Reader.textEnd

/-- A body without the lines that start with the lead; an empty lead leads no line. -/
def removeLeadLines (m : MarkerPair) (body : Text) : Text :=
  if m.lead.isEmpty then body else Reader.remove (leadLine m.lead) body

/-- One round: regions first, then lines. -/
def stripOnce (m : MarkerPair) (body : Text) : Text :=
  m.removeLeadLines (m.removeRegions body)

theorem removeRegions_sublist (m : MarkerPair) (body : Text) :
    (m.removeRegions body).Sublist body := by
  fun_induction removeRegions m body with
  | case1 => exact List.Sublist.refl _
  | case2 body c h ih => exact ih.trans (cut?_sublist h)

theorem leadLine_suffixed (lead : Text) (before : Option Char) :
    Reader.Suffixed (leadLine lead before) :=
  Reader.suffixed_bind (Reader.suffixed_when _) fun _ =>
    Reader.suffixed_bind (Reader.suffixed_skip _) fun _ =>
      Reader.suffixed_bind (Reader.suffixed_literal _) fun _ =>
        Reader.suffixed_bind (Reader.suffixed_skip _) fun _ =>
          Reader.suffixed_orElse
            (Reader.suffixed_bind Reader.suffixed_lineEnd fun _ => Reader.suffixed_pure _)
            (Reader.suffixed_when _)

theorem stripOnce_sublist (m : MarkerPair) (body : Text) : (m.stripOnce body).Sublist body := by
  refine List.Sublist.trans ?_ (m.removeRegions_sublist body)
  simp only [stripOnce, removeLeadLines]
  split
  · exact List.Sublist.refl _
  · exact Reader.remove_sublist (leadLine_suffixed m.lead) _

theorem stripOnce_length {m : MarkerPair} {body : Text} (h : m.stripOnce body ≠ body) :
    (m.stripOnce body).length < body.length := by
  have sub := m.stripOnce_sublist body
  exact Nat.lt_of_le_of_ne sub.length_le fun e => h (sub.eq_of_length e)

/-- A body without marked regions and comment lines: rounds until one changes nothing. -/
def strip (m : MarkerPair) (body : Text) : Text :=
  if _h : m.stripOnce body = body then body else strip m (m.stripOnce body)
termination_by body.length
decreasing_by exact stripOnce_length _h

/-- What stripping a body reports: each opening marker without partner, as it is met. -/
def stripNotices (m : MarkerPair) (body : Text) : List Notice :=
  let met := (m.regionOffsets body).map Notice.unpairedMarker
  if _h : m.stripOnce body = body then met else met ++ stripNotices m (m.stripOnce body)
termination_by body.length
decreasing_by exact stripOnce_length _h

/-- A stripped body is left alone by a further round. -/
theorem stripOnce_strip (m : MarkerPair) (body : Text) :
    m.stripOnce (m.strip body) = m.strip body := by
  fun_induction strip m body with
  | case1 body h => exact h
  | case2 body h ih => exact ih

theorem strip_of_stripOnce {m : MarkerPair} {body : Text} (h : m.stripOnce body = body) :
    m.strip body = body := by
  rw [strip, dif_pos h]

theorem strip_strip (m : MarkerPair) (body : Text) : m.strip (m.strip body) = m.strip body :=
  strip_of_stripOnce (m.stripOnce_strip body)

end Regraft.MarkerPair
