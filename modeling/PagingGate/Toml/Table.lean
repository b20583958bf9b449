import PagingGate.Toml.Value

set_option autoImplicit false

/-!
# Building tables

A table is built by adding members at dotted keys, and a document by adding sections below headers. No
member is ever replaced; what is there may at most be added to, and how it came to be decides by whom.
-/

namespace PagingGate.Toml

structure Assignment where
  path : KeyPath
  value : Value

/-- A header stands for a table, or with double brackets for one more of a row of tables. -/
inductive HeaderKind where
  | table
  | element
  deriving DecidableEq, Repr

structure Section where
  kind : HeaderKind
  path : KeyPath
  body : List Assignment

namespace Table

def set (t : Table) (key : String) (v : Value) : Table :=
  t.map fun m => if m.1 = key then (key, v) else m

def without (t : Table) (key : String) : Table := t.filter (·.1 ≠ key)

def add? (t : Table) (key : String) (v : Value) : Option Table :=
  match t.lookup key with
  | none => some (t ++ [(key, v)])
  | some _ => none

/-- May a path lead on through a table of this origin? A dotted key may not enter a table that has a
header. Nothing may enter a table in braces. -/
def Origin.admits (byKey : Bool) : Origin → Bool
  | .inline => false
  | .header => !byKey
  | .implied | .dotted => true

/-- Changes the table at the end of `path`, and makes tables on the way there. A path leads into the last
one of a row of tables. `change` learns how the table came to be. -/
def within (byKey : Bool) (change : Origin → Table → Option Table) :
    List String → Origin → Table → Option Table
  | [], origin, t => change origin t
  | key :: path, _, t =>
    match t.lookup key with
    | none =>
      let origin := if byKey then .dotted else .implied
      (within byKey change path origin []).map fun sub => t ++ [(key, .table origin sub)]
    | some (.table origin sub) =>
      if Origin.admits byKey origin then
        (within byKey change path origin sub).map fun sub => set t key (.table origin sub)
      else none
    | some (.tables items) =>
      match items.getLast? with
      | some sub =>
        (within byKey change path .header sub).map fun sub =>
          set t key (.tables (items.dropLast ++ [sub]))
      | none => none
    | some _ => none

/-- A dotted key adds only to tables that dotted keys have made. -/
def assign (t : Table) (a : Assignment) : Option Table :=
  within true
    (fun origin sub =>
      if a.path.parents = [] || origin = .dotted then add? sub a.path.key a.value else none)
    a.path.parents .header t

def assignAll (t : Table) (as : List Assignment) : Option Table := as.foldlM assign t

/-- A header opens a new table, or one that only the headers of tables inside it have implied; that one
moves to the end. -/
def addTable (t : Table) (key : String) (body : List Assignment) : Option Table :=
  match t.lookup key with
  | none => (assignAll [] body).map fun sub => t ++ [(key, .table .header sub)]
  | some (.table .implied sub) =>
    (assignAll sub body).map fun sub => without t key ++ [(key, .table .header sub)]
  | some _ => none

def addElement (t : Table) (key : String) (body : List Assignment) : Option Table :=
  match t.lookup key with
  | none => (assignAll [] body).map fun sub => t ++ [(key, .tables [sub])]
  | some (.tables items) =>
    (assignAll [] body).map fun sub => set t key (.tables (items ++ [sub]))
  | some _ => none

def addSection (t : Table) (s : Section) : Option Table :=
  within false
    (fun _ sub =>
      match s.kind with
      | .table => addTable sub s.path.key s.body
      | .element => addElement sub s.path.key s.body)
    s.path.parents .header t

def ofSections (front : List Assignment) (sections : List Section) : Option Table := do
  let t ← assignAll [] front
  sections.foldlM addSection t

end Table
end PagingGate.Toml
