import ReplicatedTable.Text.Parts

/-!
# Addresses as clients read them

A client splits the path of an address at slashes and backslashes and resolves the segments that stand for
the same place or for the one above. What follows a question mark or a number sign is no part of the path.
-/
namespace ReplicatedTable.Http.Url

def isSeparator (c : Char) : Bool := c == '/' || c == '\\'

/-- Whether a segment stands for the same place. -/
def isHere (s : List Char) : Bool :=
  String.ofList (s.map Char.toLower) ∈ [".", "%2e"]

/-- Whether a segment stands for the place above. -/
def isAbove (s : List Char) : Bool :=
  String.ofList (s.map Char.toLower) ∈ ["..", ".%2e", "%2e.", "%2e%2e"]

/-- Whether a segment can name a drive, above which there is nothing. -/
def isDrive : List Char → Bool
  | [letter, mark] => letter.isAlpha && (mark == ':' || mark == '|')
  | _ => false

/-- The segments of the place above. -/
def leave (kept : List (List Char)) : List (List Char) :=
  if kept.getLast?.any isDrive then kept else kept.dropLast

/-- Resolves segments behind those that are kept. At the end of a path the places that dots stand for are
followed by an empty segment. -/
def resolve (kept : List (List Char)) : List (List Char) → List (List Char)
  | [] => kept
  | s :: rest =>
    let kept :=
      if isAbove s then leave kept
      else if isHere s then kept
      else kept ++ [s]
    if rest.isEmpty && (isAbove s || isHere s) then kept ++ [[]] else resolve kept rest

/-- A path as it is sent. -/
def resolved (path : List Char) : String :=
  match Text.split isSeparator path with
  | [] :: segments => String.ofList (resolve [] segments |>.flatMap ('/' :: ·))
  | segments => String.ofList (resolve [] segments |>.flatMap ('/' :: ·))

/-- The path of an address with a scheme, as it is sent. -/
def path (url : String) : String :=
  let rest := ((Text.behind? "://".toList url.toList).getD []).dropWhile fun c => !isSeparator c && c != '?' && c != '#'
  resolved (rest.takeWhile fun c => c != '?' && c != '#')

end ReplicatedTable.Http.Url
