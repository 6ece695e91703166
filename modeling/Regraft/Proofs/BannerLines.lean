import Mathlib.Data.List.Infix
import Regraft.Proofs.Ending

/-!
# Regraft.Proofs.BannerLines -- what stands behind the comments around carried-over code

A comment runs to the end of its line, so each line of a banner has to end where the comment does.  The
lines of the notice always do, and so does the footer in front of a forwarding call.  At the end of a body
nothing is put behind the footer: it ends its line exactly if the white space that the body ends in starts
with a line break (`insert_bannerLines`), and in a body on one line the brace that closes the method becomes
part of the comment (`insert_comments_brace`).
-/

namespace Regraft.CarryOver

set_option autoImplicit false

open Text Reader MarkerPair

/-- Whether only spaces and tabs stand between here and the next line break. -/
def endsLine (t : Text) : Bool :=
  (t.dropWhile isIndent).head?.any fun c => c == '\n' || c == '\r'

theorem endsLine_feed (t : Text) : endsLine ('\n' :: t) = true := rfl

/-- Behind a character that is neither indentation nor a line break nothing counts. -/
theorem endsLine_append_inked {c : Char} (indent : isIndent c = false) (feed : c ≠ '\n')
    (back : c ≠ '\r') (s t : Text) : endsLine (s ++ c :: t) = endsLine s := by
  induction s with
  | nil => simp [endsLine, indent, feed, back]
  | cons d s ih =>
      cases indented : isIndent d with
      | true => simpa [endsLine, List.dropWhile_cons, indented] using ih
      | false => simp [endsLine, indented]

def trailing (t : Text) : Text :=
  t.drop (trimEnd t).length

theorem trimEnd_append_trailing (t : Text) : trimEnd t ++ trailing t = t :=
  (List.prefix_append_drop (trimEnd_isPrefix t)).symm

/-- A line of the banner around carried-over code, between what the banner has in front of it and
behind it. -/
inductive BannerLine (r : Rules) (indent preserved : Text) : Text → Text → Text → Prop where
  | notice {above below : List Text} {line : Text} :
      r.markers.opening :: noticeLines ++ [r.markers.closing] = above ++ line :: below →
      BannerLine r indent preserved
        ((above.flatMap fun line => indent ++ line ++ ['\n']) ++ indent) line
        ('\n' :: (below.flatMap fun line => indent ++ line ++ ['\n']) ++ preserved ++
          '\n' :: indent ++ r.markers.footer)
  | footer :
      BannerLine r indent preserved (r.markers.notice indent ++ preserved ++ '\n' :: indent)
        r.markers.footer []

variable {r : Rules} {indent preserved front line back : Text}

theorem BannerLine.append (h : BannerLine r indent preserved front line back) :
    front ++ line ++ back = banner r indent preserved := by
  cases h with
  | notice lines => simp [banner, MarkerPair.notice, lines]
  | footer => simp [banner]

/-- Every line of a banner but the footer ends behind its comment, whatever follows the banner. -/
theorem BannerLine.ends (h : BannerLine r indent preserved front line back) (below : Text) :
    endsLine (back ++ below) = true ∨ line = r.markers.footer ∧ back = [] := by
  cases h with
  | notice => exact Or.inl (endsLine_feed _)
  | footer => exact Or.inr ⟨rfl, rfl⟩

/-- All lines of a banner end behind their comments exactly if the footer does. -/
theorem bannerLines_iff (below : Text) :
    (∀ front line back, BannerLine r indent preserved front line back →
      endsLine (back ++ below) = true) ↔ endsLine below = true := by
  constructor
  · exact fun all => all _ _ _ .footer
  · intro ends front line back h
    rcases h.ends below with done | ⟨-, rfl⟩
    · exact done
    · exact ends

/-- What stands in front of the banner of a plan, and behind it, when the plan is carried out. -/
def Around (r : Rules) (new : Text) (p : Plan) (above indent below : Text) : Prop :=
  ∃ before after, p.insertion = before ++ banner r indent p.preserved ++ after ∧
    above = new.take p.offset ++ before ∧ below = after ++ new.drop p.offset

theorem Around.apply {new above below : Text} {p : Plan} (h : Around r new p above indent below) :
    p.apply new = above ++ banner r indent p.preserved ++ below := by
  obtain ⟨before, after, insertion, rfl, rfl⟩ := h
  simp [Plan.apply, insertion]

theorem drop_text {m : Method} {x y : Text} (parts : m.body = x ++ y) :
    m.text.drop (m.bodyStart + x.length) = y ++ '}' :: m.after := by
  have e : m.text = (m.heading ++ '{' :: x) ++ (y ++ '}' :: m.after) := by
    rw [Method.text_eq, parts]
    simp
  have length : m.bodyStart + x.length = (m.heading ++ '{' :: x).length := by
    rw [Method.bodyStart, Method.openBrace_eq, List.length_append, List.length_cons]
    omega
  rw [length, e, List.drop_left]

/-- What follows the banner of a plan: an end of the footer's line in front of a forwarding call, and
the rest of the method at the end of its body. -/
theorem Place.around {m : Method} {p : Plan} (h : Place r m preserved p) :
    p.preserved = preserved ∧ ∃ above indent below, Around r m.text p above indent below ∧
      (r.firstCall? m.param m.body = none → below = trailing m.body ++ '}' :: m.after) ∧
      (endsLine below = true ↔
        (r.firstCall? m.param m.body).isSome = true ∨ endsLine (trailing m.body) = true) := by
  cases h with
  | ownLine found =>
      exact ⟨rfl, _, _, _, ⟨[], _, rfl, rfl, rfl⟩, by simp [found], by simp [found, endsLine_feed]⟩
  | inLine found =>
      exact ⟨rfl, _, _, _, ⟨['\n'], _, rfl, rfl, rfl⟩, by simp [found],
        by simp [found, endsLine_feed]⟩
  | @atEnd front tail gap indent none_ parts whole =>
      obtain rfl : tail = trailing m.body := by
        have trimmed := trimEnd_append_trailing m.body
        rw [← whole] at trimmed
        exact List.append_cancel_left (parts.symm.trans trimmed.symm)
      refine ⟨rfl, _, indent, _, ⟨gap, [], (List.append_nil _).symm, rfl, rfl⟩, fun _ => ?_, ?_⟩
      · exact drop_text parts
      · rw [List.nil_append, drop_text parts, none_,
          endsLine_append_inked (by decide) (by decide) (by decide)]
        simp

/-- Carry-over is put in as a banner of which every line but the footer ends behind its comment.  All of
them do exactly if the banner stands in front of a forwarding call or the body ends in white space that
starts with a line break; without a call, what follows the footer is that white space and the brace that
closes the method. -/
theorem insert_bannerLines {source : String} {new : Text} {m : Method}
    (found : (locate r source new).outcome = .ok m) (inked : isBlankText preserved = false) :
    ∃ above indent below, Around r new (planIn r m preserved) above indent below ∧
      (CarryOver.insert r source preserved new).outcome =
        .ok (above ++ banner r indent preserved ++ below) ∧
      (∀ front line back, BannerLine r indent preserved front line back →
        front ++ line ++ back = banner r indent preserved ∧
          (endsLine (back ++ below) = true ∨ line = r.markers.footer ∧ back = [])) ∧
      (r.firstCall? m.param m.body = none → below = trailing m.body ++ '}' :: m.after) ∧
      ((∀ front line back, BannerLine r indent preserved front line back →
          endsLine (back ++ below) = true) ↔
        (r.firstCall? m.param m.body).isSome = true ∨ endsLine (trailing m.body) = true) := by
  obtain rfl := text_of_locate found
  have planned : (plan r source preserved m.text).outcome = .ok (some (planIn r m preserved)) := by
    rw [plan_eq found, if_neg (by simp [inked])]
  obtain ⟨same, above, indent, below, around, atEnd, ends⟩ := (place_planIn r m preserved).around
  have inserted := Merge.insert_eq_ok.2 ⟨_, planned, rfl⟩
  rw [apply, around.apply, same] at inserted
  exact ⟨above, indent, below, around, inserted, fun _ _ _ line => ⟨line.append, line.ends below⟩,
    atEnd, (bannerLines_iff below).trans ends⟩

def blankScaffold : Text :=
  "protected override void OnModelCreating(ModelBuilder b)\n\x7b\n\x7d\n".toList

def blankMethod : Method where
  before := []
  declaration := "protected override void OnModelCreating(ModelBuilder b)".toList
  gap := ['\n']
  body := ['\n']
  after := ['\n']
  param := ['b']

theorem insert_bannerLines_blank :
    (locate .standard "" blankScaffold).outcome = .ok blankMethod ∧
      isBlankText "Seed();".toList = false ∧
      ∃ above indent below,
        (CarryOver.insert .standard "" "Seed();".toList blankScaffold).outcome =
          .ok (above ++ banner .standard indent "Seed();".toList ++ below) ∧
        ∀ front line back, BannerLine .standard indent "Seed();".toList front line back →
          endsLine (back ++ below) = true := by
  have found : (locate .standard "" blankScaffold).outcome = .ok blankMethod := by
    decide +kernel
  have inked : isBlankText "Seed();".toList = false := by
    decide
  obtain ⟨above, indent, below, -, inserted, -, -, ends⟩ := insert_bannerLines found inked
  exact ⟨found, inked, above, indent, below, inserted, ends.2 (Or.inr (by decide))⟩

/-- A scaffold without a forwarding call, with its body on one line. -/
def lineScaffold : Text :=
  "protected override void OnModelCreating(ModelBuilder b) \x7b \x7d\n".toList

def lineMethod : Method where
  before := []
  declaration := "protected override void OnModelCreating(ModelBuilder b)".toList
  gap := [' ']
  body := [' ']
  after := ['\n']
  param := ['b']

/-- What is put around a carried-over statement at the end of a method may take the brace that closes
the method into its last comment. -/
theorem insert_comments_brace :
    (locate .standard "" lineScaffold).outcome = .ok lineMethod ∧
      isBlankText "Seed();".toList = false ∧
      (CarryOver.insert .standard "" "Seed();".toList lineScaffold).outcome =
        .ok ("protected override void OnModelCreating(ModelBuilder b) \x7b\n".toList ++
          banner .standard standardIndent "Seed();".toList ++ " \x7d\n".toList) ∧
      BannerLine .standard standardIndent "Seed();".toList
        (standard.notice standardIndent ++ "Seed();".toList ++ '\n' :: standardIndent)
        standard.footer [] ∧
      endsLine " \x7d\n".toList = false := by
  refine ⟨?_, ?_, ?_, .footer, ?_⟩ <;> decide +kernel

end Regraft.CarryOver
