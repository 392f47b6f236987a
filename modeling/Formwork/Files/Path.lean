namespace Formwork.Files

/-!
# Paths

Paths as texts, with slashes between their names. Empty names and names that are a single dot count
for nothing, except a dot that starts a relative path. Nothing else is simplified.
-/

/-- Whether a path starts at the root. -/
def isAbsolute (path : String) : Bool := path.toList.head? = some '/'

/-- A path taken from a directory. An absolute path is taken as it is. -/
def join (dir path : String) : String :=
  if isAbsolute path || dir.isEmpty then path
  else if dir.toList.getLast? = some '/' then dir ++ path
  else dir ++ "/" ++ path

/-- The pieces of a path between slashes, each with the number of characters up to its end, when
    `start` characters stand before the path. -/
def pieces (start : Nat) : List Char → List (Nat × List Char)
  | [] => [(start, [])]
  | c :: cs =>
    if c = '/' then
      (start, []) :: pieces (start + 1) cs
    else
      match pieces (start + 1) cs with
      | [] => []
      | (stop, piece) :: rest => (stop, c :: piece) :: rest

/-- The names of a path, each with the number of characters up to its end. -/
def names (path : List Char) : List (Nat × List Char) :=
  (pieces 0 path).take 1 |>.filter (fun piece => piece.2 ≠ []) |>.append <|
    (pieces 0 path).drop 1 |>.filter fun piece => piece.2 ≠ [] && piece.2 ≠ ['.']

/-- The directory of a path, if it has a last name. -/
def parent? (path : String) : Option String :=
  let chars := path.toList
  match (names chars).reverse with
  | [] => none
  | [_] => some (if isAbsolute path then "/" else "")
  | _ :: (stop, _) :: _ => some (String.ofList (chars.take stop))

/-- The last name of a path, if it has one and that is no dot or pair of dots. -/
def fileName? (path : String) : Option (List Char) :=
  ((names path.toList).getLast?.map Prod.snd).filter fun name => name ∉ [['.'], ['.', '.']]

/-- What follows the last dot of a file name, if something stands before the dot. -/
def extension? (path : String) : Option String :=
  (fileName? path).bind fun name =>
    let ending := name.reverse.takeWhile (· ≠ '.')
    if ending.length + 1 < name.length then some (String.ofList ending.reverse) else none

example : join "" "x" = "x" ∧ join "a" "x" = "a/x" ∧ join "a/" "x" = "a/x" := by decide
example : join "a" "/x" = "/x" := by decide

end Formwork.Files
