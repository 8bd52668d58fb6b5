import Tabula.Table.Ledger
import Tabula.Toml.Reader

/-!
# Reading options

Options say how lenient the reading of definitions is.  They are built in place or read
from a TOML document, whose unknown keys and tables are ignored; a known key has to have
a value of the right sort, and the seed may not be negative.
-/

namespace Tabula

/-- How definitions are read. -/
structure Options where
  /-- Comments outside quoted texts are removed first. -/
  allowComments : Bool := true
  /-- Unknown keys are refused rather than skipped. -/
  strictKeys : Bool := false
  /-- The seed of counters that declare none. -/
  seed : Long := defaultSeed
  deriving DecidableEq

/-- Why options are refused. -/
inductive OptionsError where
  /-- The document is not well written or gives a known key a value of another sort. -/
  | malformed
  /-- The seed is negative. -/
  | negativeSeed (seed : Int)
  deriving DecidableEq

/-- The wording of a refusal. -/
def OptionsError.message : OptionsError → String
  | malformed => "TOML parsing error"
  | negativeSeed seed =>
    let number := Text.integerText seed
    s!"Configuration validation error: auto_increment_seed must not be negative, got {number}"

namespace Options

/-- The options of the strict reading. -/
def strict : Options :=
  { strictKeys := true }

/-- The options can be used. -/
def validate (options : Options) : Except OptionsError Unit :=
  if options.seed.value < 0 then .error (.negativeSeed options.seed.value) else .ok ()

/-- The truth value under a key, or the given one when the key is missing. -/
def booleanAt (entries : Toml.Entries) (key : String) (default : Bool) :
    Except OptionsError Bool :=
  match Toml.find? entries key with
  | none => .ok default
  | some (.value (.boolean bit)) => .ok bit
  | some _ => .error .malformed

/-- The number of 64 bits under a key, or the given one when the key is missing. -/
def longAt (entries : Toml.Entries) (key : String) (default : Long) :
    Except OptionsError Long :=
  match Toml.find? entries key with
  | none => .ok default
  | some (.value (.integer number)) =>
    match Whole.ofInt? .bits64 number with
    | some long => .ok long
    | none => .error .malformed
  | some _ => .error .malformed

/-- The options that a TOML document gives, put to the test. -/
def ofToml (source : String) : Except OptionsError Options :=
  match Toml.ofText? source with
  | none => .error .malformed
  | some entries => do
    let allowComments ← booleanAt entries "allow_comments" true
    let strictKeys ← booleanAt entries "strict_keys" false
    let seed ← longAt entries "auto_increment_seed" defaultSeed
    let options : Options := { allowComments, strictKeys, seed }
    options.validate
    return options

theorem validate_eq_ok_iff (options : Options) :
    options.validate = .ok () ↔ 0 ≤ options.seed.value := by
  unfold validate
  split <;> simp <;> omega

end Options

end Tabula
