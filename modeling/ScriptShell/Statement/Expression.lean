/-!
A unit that ends neither in a semicolon nor in a brace is an expression whose value is wanted.
-/

namespace ScriptShell

/-- The unit ends like a statement. -/
def endsStatement (unit : String) : Bool :=
  unit.toList.getLast? = some ';' || unit.toList.getLast? = some '}'

/-- A bare expression becomes the return of its value; a statement stays as it is. -/
def wrapExpression (unit : String) : String :=
  if endsStatement unit then unit else "return (" ++ unit ++ ");"

end ScriptShell
