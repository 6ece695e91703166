import Regraft.Rules
import Regraft.Value

/-!
# Regraft.Settings -- where each option comes from

An option is taken from its environment variable where that is set, else from the configured
mapping where it has a value that is not null, else it is built in.  The three marker literals
differ: their variables count only when they hold something, a `markers` section comes before the
flat names, and whatever stands under a name counts, null included.
-/

namespace Regraft

set_option autoImplicit false

abbrev Environment := String → Option String

abbrev Entries := List (Value × Value)

structure Settings where
  method : String
  builder : String
  forward : String
  strict : Bool
  markerOpening : Value
  markerClosing : Value
  markerLead : Value
  /-- The file name that holds the context among models; empty where it is not configured. -/
  contextFile : String
  encoding : String
  logDirectory : String

namespace Settings

/-- Why options have no value. -/
inductive Error where
  | marker (e : MarkerPair.Error)
  /-- A whole number has too many digits to be a text. -/
  | longNumber

def Error.message : Error → String
  | marker e => e.message
  | longNumber =>
      "Exceeds the limit (" ++ toString Value.digitLimit ++
        " digits) for integer string conversion; use sys.set_int_max_str_digits() to increase " ++
        "the limit"

/-- The text of a value, if it has one. -/
def shown (v : Value) : Except Error String :=
  if v.isShowable then .ok v.display else .error .longNumber

def textOption (env : Environment) (data : Entries) (variable_ name default : String) :
    Except Error String :=
  match env variable_ with
  | some s => .ok s
  | none =>
      match Value.field? data name with
      | none | some .null => .ok default
      | some v => shown v

/-- Whether a text is a word in whatever case. -/
def isWordFolded (word s : String) : Bool :=
  s.toList.map Char.toLower == word.toList

def switchOption (env : Environment) (data : Entries) (variable_ name : String) : Bool :=
  match env variable_ with
  | some s => isWordFolded "true" s
  | none => ((Value.field? data name).getD .null).truth

/-- A marker literal, which has a name in the `markers` section and a flat one. -/
def markerOption (env : Environment) (data : Entries) (variable_ nested flat default : String) :
    Value :=
  match env variable_ with
  | some "" | none =>
      let section_ := ((Value.field? data "markers").getD .null).entries
      ((Value.field? section_ nested).or (Value.field? data flat)).getD (.text default)
  | some s => .text s

def resolve (env : Environment) (data : Entries) : Except Error Settings := do
  let method ← textOption env data "SCAFFOLD_MERGE_METHOD" "method_name" "OnModelCreating"
  let builder ← textOption env data "SCAFFOLD_MERGE_BUILDER_TYPE" "builder_type" "ModelBuilder"
  let forward ←
    textOption env data "SCAFFOLD_MERGE_PARTIAL_METHOD" "partial_method" "OnModelCreatingPartial"
  let contextFile ← textOption env data "SCAFFOLD_MERGE_CONTEXT_FILE" "context_file" ""
  let encoding ← textOption env data "SCAFFOLD_MERGE_ENCODING" "encoding" "utf-8"
  let logDirectory ←
    textOption env data "SCAFFOLD_MERGE_LOG_DIR" "log_dir" ".scaffoldmerge/logs"
  let strict := switchOption env data "SCAFFOLD_MERGE_STRICT" "strict_single_method"
  let markerOpening :=
    markerOption env data "SCAFFOLD_MERGE_MARKER_BEGIN" "begin" "marker_begin"
      (String.ofList MarkerPair.standard.opening)
  let markerClosing :=
    markerOption env data "SCAFFOLD_MERGE_MARKER_END" "end" "marker_end"
      (String.ofList MarkerPair.standard.closing)
  let markerLead :=
    markerOption env data "SCAFFOLD_MERGE_MARKER_PREFIX" "prefix" "marker_prefix"
      (String.ofList MarkerPair.standard.lead)
  return {
    method, builder, forward, strict, markerOpening, markerClosing, markerLead, contextFile,
    encoding, logDirectory }

/-- The options where nothing is configured. -/
def standard : Settings where
  method := "OnModelCreating"
  builder := "ModelBuilder"
  forward := "OnModelCreatingPartial"
  strict := false
  markerOpening := .text (String.ofList MarkerPair.standard.opening)
  markerClosing := .text (String.ofList MarkerPair.standard.closing)
  markerLead := .text (String.ofList MarkerPair.standard.lead)
  contextFile := ""
  encoding := "utf-8"
  logDirectory := ".scaffoldmerge/logs"

example : resolve (fun _ => none) [] = .ok standard := rfl

/-- The declaration that the options name. -/
def signature (s : Settings) : Signature :=
  ⟨s.method.toList, s.builder.toList⟩

/-- The rules of a merge that the options give, unless a marker is empty. -/
def rules (s : Settings) : Except Error Rules := do
  let opening ← shown s.markerOpening
  let closing ← shown s.markerClosing
  let lead ← shown s.markerLead
  let markers ←
    (MarkerPair.ofTexts opening.toList closing.toList lead.toList).mapError Error.marker
  return ⟨s.signature, s.forward.toList, markers, s.strict⟩

end Settings

end Regraft
