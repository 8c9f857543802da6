import TreeLint.Value.Basic

/-! Tables under construction. A table may be made on the way to another one, by a header of its
own, or by a key with points in it; the last kind is open to more keys only within the part of the
document that made it, and each table has one header at most. -/

namespace TreeLint.Toml

inductive Origin where
  /-- On the way to another table. -/
  | passing
  /-- By a header. -/
  | header
  /-- By a key, in a part of the document. -/
  | dotted (part : Nat)
  deriving DecidableEq

/-- What stands under a key: a value, which is complete, a table, or an array of tables with its
last table first. -/
inductive Item where
  | value (v : Value)
  | table (origin : Origin) (entries : List (String × Item))
  | array (tables : List (List (String × Item)))

abbrev Entries := List (String × Item)

/-- Whether keys in a part of the document can enter a table. -/
def Origin.isOpen (part : Nat) : Origin → Bool
  | passing => true
  | header => false
  | dotted made => made = part

namespace Entries

/-- Set the value of a key. The tables on the way are made where they are missing; the key itself
must be new. -/
def define (part : Nat) (v : Value) : List String → Entries → Option Entries
  | [], _ => none
  | [name], entries => match entries.lookup name with
    | none => some (Table.put entries name (.value v))
    | some _ => none
  | name :: rest, entries => do
    let inner ← match entries.lookup name with
      | none => define part v rest []
      | some (.table origin inner) => if origin.isOpen part then define part v rest inner else none
      | some _ => none
    return Table.put entries name (.table (.dotted part) inner)

/-- Change the table that the names of a header lead to. A name of an array of tables stands for
its last table. -/
def within (change : Entries → Option Entries) : List String → Entries → Option Entries
  | [], entries => change entries
  | name :: rest, entries =>
    let put := fun (item : Item) => Table.put entries name item
    match entries.lookup name with
    | none => (within change rest []).map fun inner => put (.table .passing inner)
    | some (.table origin inner) =>
      (within change rest inner).map fun inner => put (.table origin inner)
    | some (.array (last :: before)) =>
      (within change rest last).map fun last => put (.array (last :: before))
    | some _ => none

/-- Make the table of a header, which must not have been made by a header or a key before. -/
def open? (name : String) (entries : Entries) : Option Entries :=
  match entries.lookup name with
  | none => some (Table.put entries name (.table .header []))
  | some (.table .passing inner) => some (Table.put entries name (.table .header inner))
  | some _ => none

/-- Add a table to an array of tables, which is made if it is missing. -/
def append? (name : String) (entries : Entries) : Option Entries :=
  match entries.lookup name with
  | none => some (Table.put entries name (.array [[]]))
  | some (.array tables) => some (Table.put entries name (.array ([] :: tables)))
  | some _ => none

end Entries

mutual

def Item.toValue : Item → Value
  | .value v => v
  | .table _ entries => .object (membersOf entries)
  | .array tables => .list (tablesOf tables).reverse

def membersOf : List (String × Item) → List (String × Value)
  | [] => []
  | (name, item) :: rest => (name, item.toValue) :: membersOf rest

def tablesOf : List (List (String × Item)) → List Value
  | [] => []
  | entries :: rest => .object (membersOf entries) :: tablesOf rest

end

end TreeLint.Toml
