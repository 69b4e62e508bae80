/-!
# Outlines

The diagnostic form of a structured value before it is laid out. `Outline.line` writes it on one
line; `Outline.block` writes one item a line, indented by four spaces.
-/

namespace Refinement

/-- What surrounds the items of a group, on one line and on many. -/
structure Brackets where
  /-- Before the items on one line. -/
  first : String
  /-- Behind the items on one line. -/
  last : String
  /-- Before the lines of a block. -/
  blockFirst : String
  /-- Behind the lines of a block. -/
  blockLast : String

namespace Brackets

/-- Brackets without space around the items. -/
def tight (first last : String) : Brackets := ⟨first, last, first, last⟩

/-- A list. -/
def list : Brackets := tight "[" "]"

/-- A set or a map. -/
def braces : Brackets := tight "\x7b" "\x7d"

/-- A constructor with positional arguments. -/
def call (name : String) : Brackets := tight (name ++ "(") ")"

/-- A tuple; a single item is followed by a comma on one line, as every item of a block is. -/
def tuple (single : Bool) : Brackets := ⟨"(", if single then ",)" else ")", "(", ")"⟩

/-- A record with named fields. -/
def record (name : String) : Brackets :=
  ⟨name ++ " \x7b ", " \x7d", name ++ " \x7b", "\x7d"⟩

end Brackets

/-- A diagnostic text before it is laid out. -/
inductive Outline where
  /-- A text that stays as it is. -/
  | leaf (text : String)
  /-- An item behind a label. -/
  | labelled (label item : Outline)
  /-- Items between brackets. -/
  | group (brackets : Brackets) (items : List Outline)

namespace Outline

/-- An item behind a name. -/
def field (name : String) (item : Outline) : Outline := .labelled (.leaf name) item

mutual

/-- The text on one line. -/
def line : Outline → String
  | .leaf text => text
  | .labelled label item => label.line ++ ": " ++ item.line
  | .group b items => b.first ++ lineItems items ++ b.last

/-- Items on one line, with commas between them. -/
def lineItems : List Outline → String
  | [] => ""
  | item :: items => item.line ++ lineTail items

/-- The items that follow on one line. -/
def lineTail : List Outline → String
  | [] => ""
  | item :: items => ", " ++ item.line ++ lineTail items

end

/-- The start of a line at some depth. -/
def indent (depth : Nat) : String := String.ofList (List.replicate (4 * depth) ' ')

mutual

/-- The text with one item a line. -/
def block (depth : Nat) : Outline → String
  | .leaf text => text
  | .labelled label item => label.block depth ++ ": " ++ item.block depth
  | .group b [] => b.blockFirst ++ b.blockLast
  | .group b (item :: items) =>
    b.blockFirst ++ "\n" ++ (indent (depth + 1) ++ item.block (depth + 1) ++ ",\n") ++
      blockItems (depth + 1) items ++ indent depth ++ b.blockLast

/-- The lines of items, each closed by a comma. -/
def blockItems (depth : Nat) : List Outline → String
  | [] => ""
  | item :: items => indent depth ++ item.block depth ++ ",\n" ++ blockItems depth items

end

/-- The text on one line, or in a block where the alternate form is asked for. -/
def render (alternate : Bool) (o : Outline) : String :=
  if alternate then o.block 0 else o.line

end Outline

end Refinement
