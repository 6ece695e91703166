import Mathlib.Data.List.Basic
import Regraft.Proofs.Crlf.Text
import Regraft.Proofs.Reader

/-!
# Regraft.Proofs.Crlf.Reader -- readers on texts with carriage returns

On a converted text most readers have the readings they have on the text, converted (`Converts`).  One
that passes over white space may also stop inside of a line end; besides that its readings are the
same (`ConvertsUpTo`), and what is read next mostly refuses there (`Refuses`), so that the sequence is
exact again (`ConvertsUpTo.bind`).  The walk over a text then takes the same pieces (`cuts_crlf`).
-/

namespace Regraft.Reader

set_option autoImplicit false

open Text

variable {α β γ δ : Type}

/-! ## Readings that stop inside of a line end -/

/-- Whether a place does not lie inside of a line end. -/
def outsideLineEnd (rest : Text) : Bool :=
  rest.head? != some '\n'

theorem outsideLineEnd_crlf (t : Text) : outsideLineEnd (crlf t) = true := by
  simpa [outsideLineEnd] using crlf_head?_ne t

/-- The readings of a converted text are those of the text, converted. -/
def Converts (f : α → β) (r : Reader α) (r' : Reader β) : Prop :=
  ∀ t, '\r' ∉ t → r' (crlf t) = (r t).map fun p => (f p.1, crlf p.2)

/-- The same, up to readings that stop inside of a line end. -/
def ConvertsUpTo (f : α → β) (r : Reader α) (r' : Reader β) : Prop :=
  ∀ t, '\r' ∉ t →
    (r' (crlf t)).filter (fun p => outsideLineEnd p.2) = (r t).map fun p => (f p.1, crlf p.2)

/-- Nothing is read inside of a line end. -/
def Refuses (r : Reader α) : Prop :=
  ∀ t, r ('\n' :: t) = []

/-- Nothing is taken inside of a line end. -/
def Stays (r : Reader α) : Prop :=
  ∀ t p, p ∈ r ('\n' :: t) → p.2 = '\n' :: t

variable {f : α → β} {g : γ → δ} {r : Reader α} {r' : Reader β} {s : α → Reader γ}
  {s' : β → Reader δ}

theorem Converts.upTo (h : Converts f r r') : ConvertsUpTo f r r' := by
  intro t plain
  rw [h t plain, List.filter_eq_self]
  intro p m
  obtain ⟨q, -, rfl⟩ := List.mem_map.1 m
  exact outsideLineEnd_crlf q.2

/-- Readings that lead nowhere may be left out. -/
theorem flatMap_filter {l : List α} {p : α → Bool} {k : α → List β}
    (nowhere : ∀ a ∈ l, p a = false → k a = []) : (l.filter p).flatMap k = l.flatMap k := by
  induction l with
  | nil => rfl
  | cons a l ih =>
      have later := ih fun b m => nowhere b (List.mem_cons_of_mem a m)
      cases kept : p a with
      | true => rw [List.filter_cons_of_pos kept, List.flatMap_cons, List.flatMap_cons, later]
      | false =>
          rw [List.filter_cons_of_neg (by simp [kept]), List.flatMap_cons, later,
            nowhere a List.mem_cons_self kept, List.nil_append]

theorem not_mem_of_suffix {t rest : Text} {c : Char} (absent : c ∉ t) (h : rest <:+ t) : c ∉ rest :=
  fun m => absent (h.subset m)

/-- A place that does lie inside of a line end. -/
theorem inside_eq {rest : Text} (inside : outsideLineEnd rest = false) :
    ∃ t, rest = '\n' :: t := by
  cases rest with
  | nil => cases inside
  | cons c t =>
      simp only [outsideLineEnd, List.head?_cons, bne_eq_false_iff_eq, Option.some.injEq] at inside
      exact ⟨t, by rw [inside]⟩

theorem flatMap_readings (ends : Suffixed r) (hs : ∀ a, Converts g (s a) (s' (f a))) {t : Text}
    (plain : '\r' ∉ t) :
    ((r t).map fun p => (f p.1, crlf p.2)).flatMap (fun p => s' p.1 p.2) =
      ((r t).flatMap fun p => s p.1 p.2).map fun p => (g p.1, crlf p.2) := by
  rw [List.flatMap_map, List.map_flatMap]
  refine List.flatMap_congr fun p m => ?_
  exact hs p.1 p.2 (not_mem_of_suffix plain (ends t p m))

/-- What is read next refuses inside of a line end, so the sequence is exact. -/
theorem ConvertsUpTo.bind (h : ConvertsUpTo f r r') (ends : Suffixed r)
    (hs : ∀ a, Converts g (s a) (s' (f a))) (refuses : ∀ b, Refuses (s' b)) :
    Converts g (r >>= s) (r' >>= s') := by
  intro t plain
  show (r' (crlf t)).flatMap (fun p => s' p.1 p.2) = _
  rw [← flatMap_filter (p := fun q => outsideLineEnd q.2), h t plain,
    flatMap_readings ends hs plain]
  · rfl
  · rintro ⟨b, rest⟩ - inside
    obtain ⟨t, rfl⟩ := inside_eq inside
    exact refuses b t

theorem Converts.bind (h : Converts f r r') (ends : Suffixed r)
    (hs : ∀ a, Converts g (s a) (s' (f a))) : Converts g (r >>= s) (r' >>= s') := by
  intro t plain
  show (r' (crlf t)).flatMap (fun p => s' p.1 p.2) = _
  rw [h t plain, flatMap_readings ends hs plain]
  rfl

/-- The same where what is read next may stop inside of a line end again. -/
theorem ConvertsUpTo.bindUpTo (h : ConvertsUpTo f r r') (ends : Suffixed r)
    (hs : ∀ a, ConvertsUpTo g (s a) (s' (f a))) (stays : ∀ b, Stays (s' b)) :
    ConvertsUpTo g (r >>= s) (r' >>= s') := by
  intro t plain
  show ((r' (crlf t)).flatMap (fun p => s' p.1 p.2)).filter _ = ((r t).flatMap _).map _
  rw [List.filter_flatMap, ← flatMap_filter (p := fun q => outsideLineEnd q.2), h t plain,
    List.flatMap_map, List.map_flatMap]
  · refine List.flatMap_congr fun p m => ?_
    exact hs p.1 p.2 (not_mem_of_suffix plain (ends t p m))
  · rintro ⟨b, rest⟩ - inside
    obtain ⟨t, rfl⟩ := inside_eq inside
    rw [List.filter_eq_nil_iff]
    intro p m
    rw [stays b t p m]
    simp [outsideLineEnd]

theorem Converts.bindUpTo (h : Converts f r r') (ends : Suffixed r)
    (hs : ∀ a, ConvertsUpTo g (s a) (s' (f a))) : ConvertsUpTo g (r >>= s) (r' >>= s') := by
  intro t plain
  show ((r' (crlf t)).flatMap (fun p => s' p.1 p.2)).filter _ = ((r t).flatMap _).map _
  rw [h t plain, List.filter_flatMap, List.flatMap_map, List.map_flatMap]
  refine List.flatMap_congr fun p m => ?_
  exact hs p.1 p.2 (not_mem_of_suffix plain (ends t p m))

theorem suffixed_manyBack (kind : Char → Bool) : Suffixed (manyBack kind) := by
  rintro t ⟨back, rest⟩ m
  exact ⟨back.reverse, (mem_manyBack.1 m).1.symm⟩

theorem suffixed_optional (ends : Suffixed r) : Suffixed (optional r) :=
  suffixed_orElse (suffixed_bind ends fun _ => suffixed_pure _) (suffixed_pure _)

/-! ## Inside of a line end -/

theorem Refuses.stays (h : Refuses r) : Stays r := by
  intro t p m
  rw [h t] at m
  cases m

theorem Refuses.bind (h : Refuses r) (s : α → Reader γ) : Refuses (r >>= s) := by
  intro t
  show (r ('\n' :: t)).flatMap _ = []
  rw [h t, List.flatMap_nil]

theorem Stays.bind (h : Stays r) (refuses : ∀ a, Refuses (s a)) : Refuses (r >>= s) := by
  intro t
  rw [List.eq_nil_iff_forall_not_mem]
  rintro ⟨c, rest⟩ m
  obtain ⟨a, mid, first, second⟩ := mem_bind.1 m
  obtain rfl := h t (a, mid) first
  rw [refuses a t] at second
  cases second

theorem stays_when (fits : Text → Bool) : Stays (when fits) := by
  rintro t ⟨⟨⟩, rest⟩ m
  exact (mem_when.1 m).2

theorem stays_manyBack {kind : Char → Bool} (feed : kind '\n' = false) : Stays (manyBack kind) := by
  rintro t ⟨back, rest⟩ m
  rw [manyBack, manyFrom, if_neg (by simp [feed]), List.mem_singleton] at m
  rw [m]

theorem stays_optional (h : Refuses r) : Stays (optional r) := by
  rintro t ⟨v, rest⟩ m
  rcases mem_optional.1 m with ⟨a, -, found⟩ | ⟨-, rfl⟩
  · rw [h t] at found
    cases found
  · rfl

theorem stays_star (h : Refuses r) : Stays (star r) := by
  rintro t ⟨values, rest⟩ m
  rcases mem_star.1 m with ⟨-, rfl⟩ | ⟨a, mid, more, found, -, -, -⟩
  · rfl
  · rw [h t] at found
    cases found

theorem refuses_literal {needle : Text} (some_ : needle ≠ []) (line : OneLine needle) :
    Refuses (literal needle) := by
  intro t
  rw [List.eq_nil_iff_forall_not_mem]
  rintro ⟨⟨⟩, rest⟩ m
  have e := mem_literal.1 m
  cases needle with
  | nil => exact some_ rfl
  | cons c needle => exact (line c List.mem_cons_self).2 (List.cons.inj e).1.symm

theorem refuses_one {kind : Char → Bool} (feed : kind '\n' = false) : Refuses (one kind) := by
  intro t
  simp [one, feed]

/-! ## The readers of a kind -/

theorem converts_pure (a : α) : Converts f (pure a) (pure (f a)) :=
  fun _ _ => rfl

theorem converts_when {fits : Text → Bool} (same : ∀ t, '\r' ∉ t → fits (crlf t) = fits t) :
    Converts (fun u => u) (when fits) (when fits) := by
  intro t plain
  rw [when, when, same t plain]
  split <;> rfl

theorem converts_textEnd : Converts (fun u => u) textEnd textEnd :=
  converts_when fun t _ => by
    rw [Bool.eq_iff_iff, List.isEmpty_iff, List.isEmpty_iff, crlf_eq_nil]

theorem converts_literal {needle : Text} (line : OneLine needle) :
    Converts (fun u => u) (literal needle) (literal needle) := by
  intro t _
  simp only [literal, after?_crlf line]
  cases after? needle t <;> rfl

theorem converts_orElse {s : Reader α} {s' : Reader β} (hr : Converts f r r')
    (hs : Converts f s s') : Converts f (orElse r s) (orElse r' s') := by
  intro t plain
  rw [orElse, orElse, hr t plain, hs t plain, List.map_append]

theorem convertsUpTo_orElse {s : Reader α} {s' : Reader β} (hr : ConvertsUpTo f r r')
    (hs : ConvertsUpTo f s s') : ConvertsUpTo f (orElse r s) (orElse r' s') := by
  intro t plain
  rw [orElse, orElse, List.filter_append, hr t plain, hs t plain, List.map_append]

theorem converts_optional (h : Converts f r r') (ends : Suffixed r) :
    Converts (Option.map f) (optional r) (optional r') :=
  converts_orElse (h.bind ends fun a => converts_pure (some a)) (converts_pure none)

theorem convertsUpTo_optional (h : ConvertsUpTo f r r') (ends : Suffixed r) :
    ConvertsUpTo (Option.map f) (optional r) (optional r') := by
  refine convertsUpTo_orElse (h.bindUpTo ends (fun a => (converts_pure (some a)).upTo) ?_)
    (converts_pure none).upTo
  rintro b t ⟨v, rest⟩ m
  exact (mem_pure.1 m).2

theorem converts_lineEnd : Converts crlf lineEnd lineEnd := by
  intro t plain
  cases t with
  | nil => rfl
  | cons c t =>
      by_cases feed : c = '\n'
      · subst feed
        rfl
      · have ret : c ≠ '\r' := fun e => plain (by rw [e]; exact List.mem_cons_self)
        have none_ (u : Text) : lineEnd (c :: u) = [] := by
          rw [List.eq_nil_iff_forall_not_mem]
          rintro ⟨e, rest⟩ m
          obtain ⟨rfl | rfl, same⟩ := mem_lineEnd.1 m
          · exact ret (List.cons.inj same).1
          · exact feed (List.cons.inj same).1
        rw [crlf_cons feed, none_, none_]
        rfl

/-- Characters of a class that has none of a line end. -/
theorem converts_one {kind : Char → Bool} (ret : kind '\r' = false) (feed : kind '\n' = false) :
    Converts (fun u => u) (one kind) (one kind) := by
  intro t _
  cases t with
  | nil => rfl
  | cons c t =>
      by_cases other : c = '\n'
      · subst other
        simp [one, ret, feed]
      · rw [crlf_cons other]
        simp only [one]
        split <;> rfl

theorem manyBack_cons (kind : Char → Bool) (c : Char) (t : Text) :
    manyBack kind (c :: t) =
      (if kind c then (manyBack kind t).map fun p => (p.1 ++ [c], p.2) else []) ++ [([], c :: t)] := by
  by_cases h : kind c
  · simp [manyBack, manyFrom, h, manyFrom_eq kind [c]]
  · simp [manyBack, manyFrom, h]

theorem converts_manyBack {kind : Char → Bool} (ret : kind '\r' = false)
    (feed : kind '\n' = false) : Converts (fun u => u) (manyBack kind) (manyBack kind) := by
  intro t plain
  induction t with
  | nil => rfl
  | cons c t ih =>
      rw [List.mem_cons, not_or] at plain
      by_cases other : c = '\n'
      · subst other
        simp [manyBack_cons, ret, feed]
      · rw [crlf_cons other, manyBack_cons, manyBack_cons, ih plain.2]
        by_cases h : kind c <;> simp [h, crlf_cons other]

theorem converts_skip {kind : Char → Bool} (ret : kind '\r' = false) (feed : kind '\n' = false) :
    Converts (fun u => u) (skip kind) (skip kind) := by
  intro t plain
  rw [skip, skip, converts_manyBack ret feed t plain]
  simp

theorem converts_many {kind : Char → Bool} (ret : kind '\r' = false) (feed : kind '\n' = false) :
    Converts (fun u => u) (many kind) (many kind) := by
  intro t plain
  rw [many, many, converts_manyBack ret feed t plain]
  simp

theorem converts_ident : Converts (fun u => u) ident ident :=
  (converts_one (by decide) (by decide)).bind (suffixed_one _) fun _ =>
    (converts_many (by decide) (by decide)).bind (suffixed_many _) fun _ => converts_pure _

/-- Characters of a class that has both of a line end. -/
theorem convertsUpTo_many {kind : Char → Bool} (ret : kind '\r' = true) (feed : kind '\n' = true) :
    ConvertsUpTo crlf (many kind) (many kind) := by
  intro t plain
  induction t with
  | nil => rfl
  | cons c t ih =>
      rw [List.mem_cons, not_or] at plain
      have outside := outsideLineEnd_crlf (c :: t)
      by_cases other : c = '\n'
      · subst other
        rw [crlf_feed] at outside ⊢
        have inside : outsideLineEnd ('\n' :: crlf t) = false := rfl
        rw [many_cons, many_cons, many_cons, if_pos ret, if_pos feed, if_pos feed]
        simp only [List.map_append, List.filter_append, List.map_map, List.filter_map,
          Function.comp_def, List.map_cons, List.map_nil, List.filter_cons, outside, inside]
        rw [ih plain.2]
        simp
      · rw [crlf_cons other] at outside ⊢
        rw [many_cons, many_cons, List.filter_append, List.map_append]
        by_cases h : kind c
        · simp only [h, if_true, List.filter_map, Function.comp_def, List.map_map,
            List.filter_cons, outside, List.map_cons, List.map_nil]
          rw [ih plain.2]
          simp [crlf_cons other]
        · simp [h, outside, crlf_cons other]

theorem convertsUpTo_skip {kind : Char → Bool} (ret : kind '\r' = true) (feed : kind '\n' = true) :
    ConvertsUpTo (fun u => u) (skip kind) (skip kind) := by
  intro t plain
  have e (u : Text) : skip kind u = (many kind u).map fun p => ((), p.2) := by
    simp [skip, many, Function.comp_def]
  have h := congrArg (List.map fun p => ((), p.2)) (convertsUpTo_many ret feed t plain)
  rw [e, e, List.filter_map, List.map_map]
  simpa [Function.comp_def] using h

theorem convertsUpTo_blanks : ConvertsUpTo (fun u => u) blanks blanks :=
  convertsUpTo_skip (by decide) (by decide)

theorem convertsUpTo_blanks1 : ConvertsUpTo (fun u => u) blanks1 blanks1 := by
  have e (c : Char) (u : Text) : blanks1 (c :: u) = if isBlank c then blanks u else [] := by
    simp only [blanks1, bind, one]
    split <;> simp
  intro t plain
  cases t with
  | nil => rfl
  | cons c t =>
      rw [List.mem_cons, not_or] at plain
      have later := convertsUpTo_blanks t plain.2
      by_cases other : c = '\n'
      · subst other
        have blank : isBlank '\r' = true ∧ isBlank '\n' = true := by decide
        have both : blanks ('\n' :: crlf t) = blanks (crlf t) ++ [((), '\n' :: crlf t)] := by
          simp [blanks, skip, manyBack_cons, blank.2, Function.comp_def]
        rw [crlf_feed, e, e, if_pos blank.1, if_pos blank.2, both, List.filter_append, later]
        simp [outsideLineEnd]
      · rw [crlf_cons other, e, e]
        split
        · exact later
        · rfl

/-- Again and again, where each time may stop inside of a line end and the next refuses there. -/
theorem convertsUpTo_star (h : ConvertsUpTo f r r') (ends : Suffixed r) (refuses : Refuses r') :
    ConvertsUpTo (List.map f) (star r) (star r') := by
  intro t plain
  induction length : t.length using Nat.strongRecOn generalizing t with
  | ind n ih =>
      have outside := outsideLineEnd_crlf t
      rw [star_eq, star_eq, List.filter_append, List.filter_flatMap, List.map_append]
      congr 1
      · rw [← flatMap_filter (p := fun q => outsideLineEnd q.2), h t plain, List.flatMap_map,
          List.map_flatMap]
        · refine List.flatMap_congr fun p m => ?_
          have suffix := ends t p m
          simp only [crlf_length_lt suffix]
          split
          · rename_i shorter
            rw [List.filter_map, List.map_map]
            have later := ih p.2.length (length ▸ shorter) p.2 (not_mem_of_suffix plain suffix) rfl
            have mapped := congrArg (List.map fun q => (f p.1 :: q.1, q.2)) later
            simpa [Function.comp_def] using mapped
          · rfl
        · rintro ⟨b, rest⟩ - inside
          obtain ⟨u, rfl⟩ := inside_eq inside
          split
          · rw [List.filter_eq_nil_iff]
            intro p m
            obtain ⟨q, later, rfl⟩ := List.mem_map.1 m
            simp [stays_star refuses u q later, outsideLineEnd]
          · rfl
      · simp [outside]

theorem converts_star (h : Converts f r r') (ends : Suffixed r) :
    Converts (List.map f) (star r) (star r') := by
  intro t plain
  induction length : t.length using Nat.strongRecOn generalizing t with
  | ind n ih =>
      rw [star_eq, star_eq, h t plain, List.flatMap_map, List.map_append, List.map_flatMap]
      congr 1
      refine List.flatMap_congr fun p m => ?_
      have suffix := ends t p m
      simp only [crlf_length_lt suffix]
      split
      · rename_i shorter
        rw [ih p.2.length (length ▸ shorter) p.2 (not_mem_of_suffix plain suffix) rfl]
        simp
      · rfl

/-! ## Readers that take something -/

/-- Each reading takes something. -/
def Takes (r : Reader α) : Prop :=
  ∀ t p, p ∈ r t → p.2.length < t.length

theorem takes_literal {needle : Text} (some_ : needle ≠ []) : Takes (literal needle) := by
  rintro t ⟨⟨⟩, rest⟩ m
  have long := List.length_pos_iff.2 some_
  show rest.length < t.length
  rw [mem_literal.1 m, List.length_append]
  omega

theorem Takes.bind (h : Takes r) (ends : ∀ a, Suffixed (s a)) : Takes (r >>= s) := by
  rintro t ⟨c, rest⟩ m
  obtain ⟨a, mid, first, second⟩ := mem_bind.1 m
  exact Nat.lt_of_le_of_lt (ends a mid _ second).length_le (h t _ first)

theorem takes_then (ends : Suffixed r) (h : ∀ a, Takes (s a)) : Takes (r >>= s) := by
  rintro t ⟨c, rest⟩ m
  obtain ⟨a, mid, first, second⟩ := mem_bind.1 m
  exact Nat.lt_of_lt_of_le (h a mid _ second) (ends t _ first).length_le

/-! ## The walk -/

def Piece.crlf (f : α → β) : Piece α → List (Piece β)
  | .plain c => (Text.crlf [c]).map .plain
  | .hit taken a => [.hit (Text.crlf taken) (f a)]

theorem crlf_map_plain (t : Text) :
    (t.map Piece.plain).flatMap (Piece.crlf f) = (Text.crlf t).map Piece.plain := by
  induction t with
  | nil => rfl
  | cons c t ih =>
      rw [List.map_cons, List.flatMap_cons, ih, ← List.singleton_append, crlf_append, List.map_append]
      rfl

/-- A reader for walks over a text and over the converted text: its readings take something and are
converted, and where none starts at a line end, none starts inside of it. -/
structure Walks (f : α → α) (r : Option Char → Reader α) : Prop where
  ends : ∀ before, Suffixed (r before)
  consuming : Consuming r
  converts : ∀ before, Converts f (r before) (r before)
  inside : ∀ before t, '\r' ∉ t → r before ('\n' :: t) = [] → r (some '\r') ('\n' :: crlf t) = []

/-- The walk over a converted text takes the pieces of the text, converted. -/
theorem cuts_crlf {f : α → α} {r : Option Char → Reader α} (walks : Walks f r) (before : Option Char)
    {t : Text} (plain : '\r' ∉ t) :
    cuts r before (crlf t) = (cuts r before t).flatMap (Piece.crlf f) := by
  induction length : t.length using Nat.strongRecOn generalizing before t with
  | ind n ih =>
      subst length
      cases t with
      | nil => simp [cuts_nil]
      | cons c t =>
          have here := walks.converts before (c :: t) plain
          have plain' : '\r' ∉ t := fun m => plain (List.mem_cons_of_mem c m)
          rcases cuts_cases walks.consuming before c t with
            ⟨none_, e⟩ | ⟨a, rest, found, shorter, e⟩
          · rw [none_, List.map_nil] at here
            have later := ih t.length (Nat.lt_succ_self _) (some c) plain' rfl
            rw [e, List.flatMap_cons, ← later]
            by_cases feed : c = '\n'
            · subst feed
              rw [crlf_feed] at here ⊢
              rw [cuts_plain here, cuts_plain (walks.inside before t plain' none_)]
              rfl
            · rw [crlf_cons feed] at here ⊢
              rw [cuts_plain here, Piece.crlf, crlf_cons feed]
              rfl
          · have suffix := walks.ends before (c :: t) _ (mem_of_first? found)
            have found' : first? (r before) (crlf (c :: t)) = some (f a, crlf rest) := by
              rw [first?, here, List.head?_map, ← first?, found]
              rfl
            rw [e, cuts_hit found' ((crlf_length_lt suffix).2 shorter), taken_crlf suffix,
              crlf_getLast?, List.flatMap_cons,
              ih rest.length shorter _ (not_mem_of_suffix plain suffix) rfl]
            rfl

theorem replace_crlf {f : α → α} {r : Option Char → Reader α} (walks : Walks f r)
    {swap : Text → α → Text} (same : ∀ taken a, swap (crlf taken) (f a) = crlf (swap taken a))
    {t : Text} (plain : '\r' ∉ t) : replace r swap (crlf t) = crlf (replace r swap t) := by
  rw [replace, replace, cuts_crlf walks none plain]
  induction cuts r none t with
  | nil => rfl
  | cons p more ih =>
      rw [List.flatMap_cons, List.flatMap_append, ih, List.flatMap_cons, crlf_append]
      congr 1
      cases p with
      | plain c => simp [Piece.crlf, List.flatMap_map]
      | hit taken a => simp [Piece.crlf, same]

theorem remove_crlf {f : α → α} {r : Option Char → Reader α} (walks : Walks f r) {t : Text}
    (plain : '\r' ∉ t) : remove r (crlf t) = crlf (remove r t) :=
  replace_crlf walks (fun _ _ => rfl) plain

/-- The first reading of a converted text is the one of the text, if there is one. -/
theorem occurrences_crlf {f : α → α} {r : Option Char → Reader α} (walks : Walks f r) {t : Text}
    (plain : '\r' ∉ t) :
    (occurrences r t = [] ∧ occurrences r (crlf t) = []) ∨
      ∃ front taken back a others others', t = front ++ taken ++ back ∧
        occurrences r t = ⟨front.length, (front ++ taken).length, a⟩ :: others ∧
        occurrences r (crlf t) =
          ⟨(crlf front).length, (crlf (front ++ taken)).length, f a⟩ :: others' := by
  have pieces := cuts_crlf walks none plain
  cases some_ : occurrences r t with
  | nil =>
      refine Or.inl ⟨rfl, ?_⟩
      have none_ := occurrencesFrom_eq_nil.1 some_
      rw [occurrences, occurrencesFrom_eq_nil, pieces]
      intro p m
      obtain ⟨q, member, m⟩ := List.mem_flatMap.1 m
      obtain ⟨c, rfl⟩ := none_ q member
      obtain ⟨d, -, rfl⟩ := List.mem_map.1 m
      exact ⟨d, rfl⟩
  | cons first others =>
      obtain ⟨front, taken, more, parts, start, stop⟩ := occurrencesFrom_eq_cons some_
      rw [Nat.zero_add] at start
      have text := cuts_text walks.ends none t
      have plainText : (front.map Piece.plain).flatMap (Piece.text (α := α)) = front := by
        simp [List.flatMap_map, Piece.text]
      rw [parts, List.flatMap_append, plainText, List.flatMap_cons, Piece.text] at text
      rw [parts, List.flatMap_append, crlf_map_plain, List.flatMap_cons, Piece.crlf] at pieces
      let first' : Occurrence α :=
        ⟨(crlf front).length, (crlf (front ++ taken)).length, f first.value⟩
      obtain ⟨others', found⟩ : ∃ others', occurrencesFrom 0 ((crlf front).map .plain ++
          .hit (crlf taken) first'.value :: more.flatMap (Piece.crlf f)) = first' :: others' :=
        occurrencesFrom_of_eq (by simp [first']) (by simp [first'])
      refine Or.inr ⟨front, taken, more.flatMap Piece.text, first.value, others, others', ?_, ?_, ?_⟩
      · rw [List.append_assoc, text]
      · rw [List.length_append, ← start, ← stop]
      · rw [occurrences, pieces, ← found]
        rfl

end Regraft.Reader
