import Regraft.Attempt
import Regraft.Failure
import Regraft.Signature

/-!
# Regraft.Method -- the method found in a text

A located method cuts its text into what stands before the declaration, the declaration, what
stands between it and its block, the body, and what follows the block.  The cut loses nothing
(`CarryOver.text_of_locate`), so every offset is a sum of lengths.
-/

namespace Regraft

set_option autoImplicit false

/-- A text cut along one method. -/
structure Method where
  before : Text
  declaration : Text
  gap : Text
  body : Text
  after : Text
  param : Text

namespace Method

def text (m : Method) : Text :=
  m.before ++ m.declaration ++ m.gap ++ '{' :: m.body ++ '}' :: m.after

def start (m : Method) : Nat :=
  m.before.length

def stop (m : Method) : Nat :=
  m.start + m.declaration.length

def openBrace (m : Method) : Nat :=
  m.stop + m.gap.length

/-- The offset of the body, which is what the braces enclose. -/
def bodyStart (m : Method) : Nat :=
  m.openBrace + 1

def closeBrace (m : Method) : Nat :=
  m.bodyStart + m.body.length

/-- Cut a text at a declaration and the block after it: nothing where no block follows. -/
def cut (t : Text) (found : Reader.Occurrence Text) : Except Failure (Option Method) :=
  match Text.cutAt? ['{'] (t.drop found.stop) with
  | none => .ok none
  | some (gap, block) =>
      match Brace.closeBlock 0 block with
      | .error depth => .error (.unclosedBrace (found.stop + gap.length) depth)
      | .ok (body, after) =>
          .ok (some
            { before := t.take found.start
              declaration := (t.take found.stop).drop found.start
              gap, body, after
              param := found.value })

/-- Find the first declaration that fits and cut the text there.  Several declarations are a
failure where one is demanded, and worth a notice otherwise. -/
def locate (s : Signature) (strict : Bool) (t : Text) : Attempt Failure (Option Method) := do
  match s.occurrences t with
  | [] => return none
  | first :: others =>
      let count := others.length + 1
      if 1 < count then
        if strict then throw (.ambiguousMethod s.displayName count)
        Attempt.note (.severalSignatures count first.start)
      let found ← Attempt.ofExcept (cut t first)
      if found.isNone then Attempt.note (.noBlock first.start)
      return found

theorem cut_text {t : Text} {found : Reader.Occurrence Text} {m : Method}
    (ordered : found.start ≤ found.stop) (h : cut t found = .ok (some m)) : m.text = t := by
  simp only [cut] at h
  split at h
  · simp at h
  · rename_i gap block opened
    split at h
    · simp at h
    · rename_i body after closed
      simp only [Except.ok.injEq, Option.some.injEq] at h
      subst h
      have e₁ := Text.cutAt?_append opened
      have e₂ := Brace.closeBlock_append closed
      have e₃ : t.take found.start ++ (t.take found.stop).drop found.start = t.take found.stop := by
        have := List.take_append_drop found.start (t.take found.stop)
        rwa [List.take_take, Nat.min_eq_left ordered] at this
      calc _ = (t.take found.start ++ (t.take found.stop).drop found.start) ++
              (gap ++ ['{'] ++ (body ++ '}' :: after)) := by simp [text]
        _ = t.take found.stop ++ t.drop found.stop := by rw [e₃, ← e₂, ← e₁]
        _ = t := List.take_append_drop ..

end Method

end Regraft
