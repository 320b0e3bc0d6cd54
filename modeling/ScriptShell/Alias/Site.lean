import ScriptShell.Text.Scan
import ScriptShell.Text.Trim

/-!
The places where a short class name is written out. A site names what has to stand before the short
name and what after it; both are kept, only the name between them is replaced.
-/

namespace ScriptShell

open Text

inductive Site where
  /-- After a keyword and white space, as a whole word. -/
  | afterKeyword (word : String)
  /-- Before `::`, at the start of a line or after a character that no longer name can end in. -/
  | staticAccess
  /-- After an opening parenthesis or a comma, before a parameter's variable. -/
  | parameterType
  /-- After a closing parenthesis and a colon, as a whole word. -/
  | returnType
deriving DecidableEq, Repr

namespace Site

/-- The sites in the order in which they are rewritten. -/
def all : List Site :=
  [.afterKeyword "new", .staticAccess, .afterKeyword "instanceof", .parameterType, .returnType,
   .afterKeyword "extends", .afterKeyword "implements"]

/-- A word starts or ends between the two neighbours. -/
def isBoundary (before after : Option Char) : Bool := before.any isWord != after.any isWord

/-- The ways to take white space off a text after `n` characters, the longest first, before shorter
ones: how many characters have been taken then, and what follows them. -/
def spaceSplits (shorter : List (Nat × List Char)) (n : Nat) : List Char → List (Nat × List Char)
  | [] => (n, []) :: shorter
  | c :: cs =>
    if isSpace c then spaceSplits ((n, c :: cs) :: shorter) (n + 1) cs
    else (n, c :: cs) :: shorter

/-- The ways to take white space and then a question mark off a text after `n` characters, either or
both optional. -/
def nullableSplits (n : Nat) (cs : List Char) : List (Nat × List Char) :=
  (spaceSplits [] n cs).flatMap fun p =>
    match p.2 with
    | '?' :: rest => [(p.1 + 1, rest), p]
    | _ => [p]

/-- How many characters may stand before the short name from a position on, each with what follows
them, in order of preference. -/
def leads (site : Site) (prev : Option Char) (cs : List Char) : List (Nat × List Char) :=
  match site, cs with
  | .afterKeyword word, _ =>
    if isBoundary prev cs.head? then
      match dropPrefix? word.toList cs with
      | some (c :: rest) => if isSpace c then spaceSplits [] (word.length + 1) rest else []
      | _ => []
    else []
  | .staticAccess, cs =>
    (if prev = none ∨ prev = some '\n' then [(0, cs)] else []) ++
      match cs with
      | c :: rest => if isWord c || c == '\\' || c == '$' || c == '>' then [] else [(1, rest)]
      | [] => []
  | .parameterType, c :: rest => if c == '(' || c == ',' then nullableSplits 1 rest else []
  | .returnType, ')' :: rest =>
    match rest.dropWhile isSpace with
    | ':' :: after => nullableSplits ((rest.takeWhile isSpace).length + 2) after
    | _ => []
  | _, _ => []

/-- White space, an optional `&`, an optional `...` and the `$` of a parameter. -/
def parameterTrail? (cs : List Char) : Option (List Char) :=
  let spaces := cs.takeWhile isSpace
  let rest := cs.dropWhile isSpace
  let mark := if rest.head? = some '&' then ['&'] else []
  let rest := rest.drop mark.length
  let dots := if (dropPrefix? ['.', '.', '.'] rest).isSome then ['.', '.', '.'] else []
  if !spaces.isEmpty && (rest.drop dots.length).head? = some '$' then
    some (spaces ++ mark ++ dots ++ ['$'])
  else none

/-- What is kept after the short name, given the character that it ends in. -/
def trail? (site : Site) (last : Option Char) (cs : List Char) : Option (List Char) :=
  match site with
  | .afterKeyword _ | .returnType => if isBoundary last cs.head? then some [] else none
  | .staticAccess => (dropPrefix? [':', ':'] cs).map fun _ => [':', ':']
  | .parameterType => parameterTrail? cs

/-- Finds `short` at a site and gives the text with `full` in its place. -/
def matcher (site : Site) (short full : List Char) : Matcher (List Char) := fun prev cs =>
  (site.leads prev cs).findSome? fun (n, rest) => do
    let rest ← dropPrefix? short rest
    let lead := cs.take n
    let trail ← site.trail? (lead ++ short).getLast? rest
    some (lead ++ full ++ trail, n + short.length + trail.length)

/-- Every occurrence at the site written out. -/
def rewrite (site : Site) (short full : List Char) (cs : List Char) : List Char :=
  Text.rewrite (site.matcher short full) cs

end Site

end ScriptShell
