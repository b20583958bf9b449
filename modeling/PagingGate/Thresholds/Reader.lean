import PagingGate.Json.Record
import PagingGate.Thresholds
import PagingGate.Toml.Document

set_option autoImplicit false

/-!
# Reading thresholds

A settings file is a TOML document with at most one member, `thresholds`. That is a table of the two
thresholds, or an array of their values. Members are taken in document order, and the first that does not
fit refuses the file. As JSON, thresholds are a record of two numbers.
-/

namespace PagingGate.Settings

open Toml (Table Value)

inductive Error where
  | malformed
  | unknownField (name : String) (expected : List String)
  | mismatch (found : Found) (expected : String)
  | wrongLength (length : Nat) (title : String) (fields : Nat)

def thresholdsKey : String := "thresholds"
def maxPercentKey : String := "max_pct"
def minBytesKey : String := "min_bytes"
def title : String := "struct ThresholdSettings"

def numberText (x : Float) : List Char :=
  match Decimal.exact x with
  | .finite negative m e => Decimal.plainLayout.finiteText negative m e
  | other => ((Decimal.nonFiniteText other).getD "").toList

def quotedName (name : String) : List Char := '`' :: name.toList ++ ['`']

/-- A document that is no TOML has no further message here. -/
def Error.message? : Error → Option (List Char)
  | .malformed => none
  | .unknownField name expected =>
    some ("unknown field ".toList ++ quotedName name ++ ", expected ".toList ++
      List.intercalate " or ".toList (expected.map quotedName))
  | .mismatch found expected => some (mismatchMessage numberText found expected)
  | .wrongLength length title fields => some (lengthMessage length title fields)

/-- A date or time counts as a map. -/
def found : Value → Found
  | .text s => .text s
  | .integer n => .integer n
  | .float x => .number x
  | .flag b => .flag b
  | .array _ | .tables _ => .sequence
  | .dateTime | .table _ _ => .map

/-- Whole numbers are taken as the nearest binary64 number. -/
def number (v : Value) : Except Error Float :=
  match v with
  | .integer n => .ok (Float.ofInt n)
  | .float x => .ok x
  | v => .error (.mismatch (found v) "f64")

def addMember (choice : ThresholdChoice) (m : String × Value) : Except Error ThresholdChoice :=
  if m.1 = maxPercentKey then do
    let x ← number m.2
    pure { choice with maxPercent := some x }
  else if m.1 = minBytesKey then do
    let x ← number m.2
    pure { choice with minBytes := some x }
  else .error (.unknownField m.1 [maxPercentKey, minBytesKey])

/-- Thresholds as an array: the two values, and whatever follows them. -/
def ofItems : List Value → Except Error ThresholdChoice
  | [] => .error (.wrongLength 0 title 2)
  | [a] => do
    let _ ← number a
    .error (.wrongLength 1 title 2)
  | a :: b :: _ => do
    let x ← number a
    let y ← number b
    pure ⟨some x, some y⟩

def dateTimeField : String := "$__toml_private_datetime"

def ofThresholds (v : Value) : Except Error ThresholdChoice :=
  match v with
  | .table _ members => members.foldlM addMember ⟨none, none⟩
  | .array items => ofItems items
  | .tables items => ofItems (items.map (.table .header))
  | .dateTime => .error (.unknownField dateTimeField [maxPercentKey, minBytesKey])
  | v => .error (.mismatch (found v) title)

def ofMember (m : String × Value) : Except Error ThresholdChoice :=
  if m.1 = thresholdsKey then ofThresholds m.2 else .error (.unknownField m.1 [thresholdsKey])

/-- No key comes twice in a table, so the last member is the only one. -/
def ofTable (t : Table) : Except Error ThresholdChoice :=
  t.foldlM (fun _ m => ofMember m) ⟨none, none⟩

def ofText (text : String) : Except Error ThresholdChoice :=
  match Toml.document? text with
  | none => .error .malformed
  | some t => ofTable t

end PagingGate.Settings

namespace PagingGate.Thresholds

open Json (Member Reader Record)

def json (t : Thresholds) : List Char :=
  Json.compactObject
    [("max_delta_pct", Json.numberText t.maxPercent), ("min_bytes", Json.numberText t.minBytes)]

def record : Record ThresholdChoice Thresholds where
  title := "struct GateConfig"
  members :=
    [⟨"max_delta_pct", Reader.float.mapped fun x t => { t with maxPercent := some x }⟩,
     ⟨"min_bytes", Reader.float.mapped fun x t => { t with minBytes := some x }⟩]
  blank := ⟨none, none⟩
  finish
    | ⟨some a, some b⟩ => .ok ⟨a, b⟩
    | ⟨none, _⟩ => .error "max_delta_pct"
    | ⟨some _, none⟩ => .error "min_bytes"

def ofJson (text : String) : Except Json.Error Thresholds := record.reader.document text

end PagingGate.Thresholds
