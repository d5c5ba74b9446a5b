import PacketMemory.Text.Blank

/-!
# Short type names

Failures mention a typed view by the last part of its type's name. The path in front of it is
dropped, and so is an argument list in which every argument is ticked: it starts with a tick
and only names a scope, which says nothing about the view. Any other argument list stays as it
is, with the paths in it.
-/

namespace PacketMemory.TypeName

/-- What stands behind the last `::` of a path, or `found` if there is none. -/
def lastSegment (found : List Char) : List Char → List Char
  | [] => found
  | c :: rest =>
    lastSegment (if c = ':' ∧ rest.head? = some ':' then rest.tail else found) rest

/-- The parts between the separators, one more than there are separators. -/
def separated (separator : Char) : List Char → List (List Char)
  | [] => [[]]
  | c :: rest =>
    if c = separator then [] :: separated separator rest
    else
      match separated separator rest with
      | [] => [[c]]
      | part :: parts => (c :: part) :: parts

/-- What the name of a scope starts with. -/
def tick : Char := Char.ofNat 0x27

/-- Whether an argument starts with a tick, but for the blanks in front of it. -/
def isTicked (argument : List Char) : Bool :=
  (trimStart argument).head? = some tick

/-- Whether what follows an opening bracket closes at the end and holds only ticked arguments. -/
def onlyTicked (arguments : List Char) : Bool :=
  arguments.getLast? = some '>' ∧
    (separated ',' arguments.dropLast).all isTicked = true

/-- The name without its path and without an argument list that is only ticked. -/
def shorten (name : List Char) : List Char :=
  let path := name.takeWhile (· ≠ '<')
  let base := lastSegment path path
  match name.dropWhile (· ≠ '<') with
  | [] => base
  | bracket :: arguments =>
    if onlyTicked arguments then base else base ++ bracket :: arguments

/-- The short form of a type name. -/
def short (name : String) : String := String.ofList (shorten name.toList)

end PacketMemory.TypeName
