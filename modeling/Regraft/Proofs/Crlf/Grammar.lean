import Regraft.Proofs.BlankLines
import Regraft.Proofs.CallText
import Regraft.Proofs.Crlf.Reader
import Regraft.Proofs.Entity.Collapse
import Regraft.Proofs.Marker
import Regraft.Proofs.Method

/-!
# Regraft.Proofs.Crlf.Grammar -- what is read in texts with carriage returns

Declarations, forwarding calls, lines of the lead, runs of line ends and blank lines are read in a
converted text where they are read in the text, each converted.  White space within a declaration or a
call may hold line ends; it always comes before a character that refuses to start inside of one.
-/

namespace Regraft

set_option autoImplicit false

open Text Reader

/-- A name of word characters lies in one line. -/
theorem Text.oneLine_of_words {t : Text} (words : ∀ c ∈ t, isWord c = true) : OneLine t := by
  intro c m
  have word := words c m
  constructor <;> rintro rfl <;> revert word <;> decide

/-! ## Declarations -/

namespace Signature

theorem refuses_ident : Refuses ident :=
  (refuses_one (by decide)).bind _

theorem convertsUpTo_qualifier : ConvertsUpTo (fun u => u) qualifier qualifier := by
  have dot : OneLine ['.'] := by decide
  refine converts_ident.bindUpTo suffixed_ident fun _ => ?_
  refine convertsUpTo_blanks.bindUpTo (suffixed_skip _) (fun _ => ?_) fun _ =>
    ((refuses_literal (by simp) dot).bind _).stays
  exact (converts_literal dot).bindUpTo (suffixed_literal _) fun _ => convertsUpTo_blanks

/-- The literals of a signature lie in one line. -/
structure OneLine (s : Signature) : Prop where
  method : Text.OneLine s.method
  method_some : s.method ≠ []
  builder : Text.OneLine s.builder
  builder_some : s.builder ≠ []

theorem converts_declaration {s : Signature} (line : s.OneLine) :
    Converts (fun u => u) s.declaration s.declaration := by
  -- each word is followed by white space and a literal that refuses inside of a line end
  have word {needle : Text} {r : Reader Text} (h : Converts (fun u => u) r r)
      (refuses : Refuses r) (here : Text.OneLine needle) :
      Converts (fun u => u) (do literal needle; blanks1; r) (do literal needle; blanks1; r) :=
    (converts_literal here).bind (suffixed_literal _) fun _ =>
      convertsUpTo_blanks1.bind suffixed_blanks1 (fun _ => h) fun _ => refuses
  have sign {needle : Text} {r : Reader Text} (h : Converts (fun u => u) r r)
      (refuses : Refuses r) (here : Text.OneLine needle) :
      Converts (fun u => u) (do literal needle; blanks; r) (do literal needle; blanks; r) :=
    (converts_literal here).bind (suffixed_literal _) fun _ =>
      convertsUpTo_blanks.bind (suffixed_skip _) (fun _ => h) fun _ => refuses
  have refuses {needle : Text} (some_ : needle ≠ []) (here : Text.OneLine needle)
      (k : Unit → Reader Text) : Refuses (literal needle >>= k) :=
    (refuses_literal some_ here).bind k
  rw [declaration]
  refine word (word (word (sign (sign ?_ ?_ (by decide)) ?_ line.method) ?_ (by decide)) ?_
    (by decide)) ?_ (by decide)
  · refine (convertsUpTo_star convertsUpTo_qualifier suffixed_qualifier (refuses_ident.bind _)).bind
      (suffixed_star suffixed_qualifier) (fun _ => ?_) fun _ => refuses line.builder_some line.builder _
    refine word (converts_ident.bind suffixed_ident fun name => ?_) (refuses_ident.bind _) line.builder
    refine convertsUpTo_blanks.bind (suffixed_skip _) (fun _ => ?_) fun _ =>
      refuses (by simp) (by decide) _
    exact (converts_literal (by decide)).bind (suffixed_literal _) fun _ => converts_pure name
  · exact (stays_star (refuses_ident.bind _)).bind fun _ => refuses line.builder_some line.builder _
  · exact refuses (by simp) (by decide) _
  · exact refuses line.method_some line.method _
  · exact refuses (by decide) (by decide) _
  · exact refuses (by decide) (by decide) _

theorem takes_declaration (s : Signature) : Takes s.declaration := by
  have word (needle : Text) {r : Reader Text} (h : Takes r) :
      Takes (do literal needle; blanks1; r) :=
    takes_then (suffixed_literal _) fun _ => takes_then suffixed_blanks1 fun _ => h
  have sign (needle : Text) {r : Reader Text} (h : Takes r) :
      Takes (do literal needle; blanks; r) :=
    takes_then (suffixed_literal _) fun _ => takes_then (suffixed_skip _) fun _ => h
  refine word _ (word _ (word _ (sign _ (sign _ (takes_then (suffixed_star suffixed_qualifier)
    fun _ => word _ (takes_then suffixed_ident fun _ => takes_then (suffixed_skip _) fun _ => ?_))))))
  exact (takes_literal (by simp)).bind fun _ => suffixed_pure _

theorem walks_declaration {s : Signature} (line : s.OneLine) :
    Walks (fun u => u) fun _ => s.declaration where
  ends _ := suffixed_declaration s
  consuming _ := takes_declaration s
  converts _ := converts_declaration line
  inside _ _ _ _ := by
    rw [declaration]
    exact (refuses_literal (by decide) (by decide)).bind _ _

end Signature

/-! ## Forwarding calls -/

namespace Rules

theorem refuses_receiver : Refuses receiver :=
  (refuses_literal (by decide) (by decide)).bind _

theorem suffixed_receiver : Suffixed receiver :=
  suffixed_bind (suffixed_literal _) fun _ => suffixed_bind (suffixed_many _) fun _ =>
    suffixed_bind (suffixed_literal _) fun _ => suffixed_bind (suffixed_many _) fun _ =>
      suffixed_pure _

theorem convertsUpTo_receiver : ConvertsUpTo crlf receiver receiver := by
  have this : Text.OneLine "this".toList := by decide
  have dot : Text.OneLine ['.'] := by decide
  refine (converts_literal this).bindUpTo (suffixed_literal _) fun _ => ?_
  refine (convertsUpTo_many (by decide) (by decide)).bindUpTo (suffixed_many _) (fun left => ?_)
    fun _ => ((refuses_literal (by simp) dot).bind _).stays
  refine (converts_literal dot).bindUpTo (suffixed_literal _) fun _ => ?_
  refine (convertsUpTo_many (by decide) (by decide)).bindUpTo (suffixed_many _) (fun right => ?_)
    fun _ => by
      rintro t ⟨v, rest⟩ m
      exact (mem_pure.1 m).2
  have text : "this".toList ++ crlf left ++ ['.'] ++ crlf right =
      crlf ("this".toList ++ left ++ ['.'] ++ right) := by
    rw [crlf_append, crlf_append, crlf_append, crlf_of_oneLine this, crlf_of_oneLine dot]
  rw [text]
  exact (converts_pure _).upTo

theorem wordAt_crlf (t : Text) : wordAt (crlf t).head? = wordAt t.head? := by
  cases t with
  | nil => rfl
  | cons c t =>
      by_cases feed : c = '\n'
      · subst feed
        show wordAt (some '\r') = wordAt (some '\n')
        decide
      · rw [crlf_cons feed]
        rfl

theorem converts_boundary (before : Option Char) :
    Converts (fun u => u) (boundary before) (boundary before) :=
  converts_when fun t _ => by rw [wordAt_crlf]

/-- The character before a call is the same behind converted white space. -/
theorem edge_crlf (this : Option Text) (indent : Text) :
    ((((this.map crlf).getD []).reverse ++ indent).head?) =
      ((this.getD []).reverse ++ indent).head? := by
  cases this with
  | none => rfl
  | some text =>
      simp only [Option.map_some, Option.getD_some, List.head?_append, List.head?_reverse,
        crlf_getLast?]

variable {r : Rules} {param : Text}

theorem refuses_forwardingCall (names : r.CallNames param) (before : Option Char) :
    Refuses (r.forwardingCall param before) :=
  (stays_manyBack (by decide)).bind fun _ => (stays_optional refuses_receiver).bind fun _ =>
    (stays_when _).bind fun _ =>
      (refuses_literal names.forward_some (oneLine_of_words names.forward)).bind _

theorem converts_forwardingCall (names : r.CallNames param) (some_ : param ≠ [])
    (before : Option Char) :
    Converts (fun u => u) (r.forwardingCall param before) (r.forwardingCall param before) := by
  have forward := oneLine_of_words names.forward
  have refuses {needle : Text} (some_ : needle ≠ []) (here : Text.OneLine needle)
      (k : Unit → Reader Unit) : Refuses (literal needle >>= k) :=
    (refuses_literal some_ here).bind k
  -- each part is followed by white space and a literal that refuses inside of a line end
  have sign {needle : Text} {k : Reader Unit} (here : Text.OneLine needle) (refuses : Refuses k)
      (h : Converts (fun u => u) k k) :
      Converts (fun u => u) (do literal needle; blanks; k) (do literal needle; blanks; k) :=
    (converts_literal here).bind (suffixed_literal _) fun _ =>
      convertsUpTo_blanks.bind (suffixed_skip _) (fun _ => h) fun _ => refuses
  refine (converts_manyBack (by decide) (by decide)).bind (suffixed_manyBack _) fun indent => ?_
  refine (convertsUpTo_optional convertsUpTo_receiver suffixed_receiver).bind
    (suffixed_optional suffixed_receiver) (fun this => ?_) fun _ => (stays_when _).bind fun _ =>
      refuses names.forward_some forward _
  rw [edge_crlf]
  refine (converts_boundary _).bind (suffixed_when _) fun _ => ?_
  refine sign forward (refuses (by simp) (by decide) _) ?_
  refine sign (by decide) (refuses some_ (oneLine_of_words names.param) _) ?_
  refine sign (oneLine_of_words names.param) (refuses (by simp) (by decide) _) ?_
  refine sign (by decide) (refuses (by simp) (by decide) _) ?_
  refine (converts_literal (by decide)).bind (suffixed_literal _) fun _ => ?_
  refine (converts_skip (by decide) (by decide)).bind (suffixed_skip _) fun _ => ?_
  exact (converts_optional converts_lineEnd suffixed_lineEnd).bind
    (suffixed_optional suffixed_lineEnd) fun _ => converts_pure _

theorem walks_forwardingCall (names : r.CallNames param) (some_ : param ≠ []) :
    Walks (fun u => u) (r.forwardingCall param) where
  ends := r.forwardingCall_suffixed param
  consuming := r.forwardingCall_consuming param
  converts := converts_forwardingCall names some_
  inside _ _ _ _ := refuses_forwardingCall names _ _

end Rules

/-! ## Lines of the lead, runs of line ends, blank lines -/

theorem MarkerPair.walks_leadLine {lead : Text} (some_ : lead ≠ []) (line : Text.OneLine lead) :
    Walks (fun u => u) (MarkerPair.leadLine lead) where
  ends := MarkerPair.leadLine_suffixed lead
  consuming := leadLine_consuming some_
  converts before := by
    refine (converts_when fun _ _ => rfl).bind (suffixed_when _) fun _ => ?_
    refine (converts_skip (by decide) (by decide)).bind (suffixed_skip _) fun _ => ?_
    refine (converts_literal line).bind (suffixed_literal _) fun _ => ?_
    refine (converts_skip (by decide) (by decide)).bind (suffixed_skip _) fun _ => ?_
    exact converts_orElse (converts_lineEnd.bind suffixed_lineEnd fun _ => converts_pure ())
      converts_textEnd
  inside _ _ _ _ := rfl

namespace Entity

theorem walks_lineEnds : Walks crlf fun _ => lineEnds := by
  have more (g : Text → Text) (first : Text) :
      Converts g (do let _ ← lineEnd; let _ ← lineEnd; let _ ← star lineEnd; return first)
        (do let _ ← lineEnd; let _ ← lineEnd; let _ ← star lineEnd; return g first) :=
    converts_lineEnd.bind suffixed_lineEnd fun _ => converts_lineEnd.bind suffixed_lineEnd fun _ =>
      (converts_star converts_lineEnd suffixed_lineEnd).bind (suffixed_star suffixed_lineEnd)
        fun _ => converts_pure first
  refine ⟨fun _ => lineEnds_suffixed, ?_, fun _ => converts_lineEnd.bind suffixed_lineEnd (more crlf),
    fun _ t plain none_ => ?_⟩
  · rintro before t ⟨first, rest⟩ m
    obtain ⟨more, ends, -, rfl⟩ := mem_lineEnds m
    rcases ends with rfl | rfl <;> simp only [List.length_append, List.length_cons] <;> omega
  · -- behind the line feed the rest of a run would be read in the text too
    have feed (u : Text) : lineEnd ('\n' :: u) = [(['\n'], u)] := rfl
    have rest := more (fun _ => ['\n']) ['\n'] t plain
    simp only [lineEnds, bind, feed, List.flatMap_cons, List.flatMap_nil, List.append_nil]
      at none_ rest ⊢
    rw [rest, none_]
    rfl

end Entity

namespace CarryOver

theorem suffixed_blankLine : Suffixed blankLine :=
  suffixed_bind (suffixed_skip _) fun _ => suffixed_bind suffixed_lineEnd fun _ => suffixed_pure _

theorem converts_blankLine : Converts (fun u => u) blankLine blankLine :=
  (converts_skip (by decide) (by decide)).bind (suffixed_skip _) fun _ =>
    converts_lineEnd.bind suffixed_lineEnd fun _ => converts_pure _

end CarryOver

end Regraft
