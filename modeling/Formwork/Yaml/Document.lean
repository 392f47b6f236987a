import Formwork.Yaml.Tree

namespace Formwork.Yaml

/-!
# YAML documents

The tree that the tokens of a text describe. A text holds at most one document, which can start with
directives and then with a mark. Anchors are numbered as they start: the number of an anchor is the
number of names that were given before it, so that a name given again can take a number that is
already there. An alias takes the number that its name has then.
-/

/-- The names that can be used in a place of a document. -/
structure Names where
  handles : Handles
  /-- The names of anchors so far with their numbers, each name once. -/
  numbers : List (String × Nat) := []

namespace Names

/-- The number of the next anchor. -/
def next (env : Names) : Nat := env.numbers.length

/-- The names after an anchor. -/
def anchor (env : Names) (name : String) : Names :=
  { env with numbers := (name, env.next) :: env.numbers.filter (·.1 ≠ name) }

end Names

namespace Tree

/-- What reading a value gives: the value, the names after it and the tokens after it. -/
abbrev Reading := Tree × Names × List Token

/-- An anchor and a tag before a value, in either order and each at most once. -/
def properties : List Token → Option String × Option Tag × List Token
  | .anchor a :: .tag t :: ts => (some a, some t, ts)
  | .tag t :: .anchor a :: ts => (some a, some t, ts)
  | .anchor a :: ts => (some a, none, ts)
  | .tag t :: ts => (none, some t, ts)
  | ts => (none, none, ts)

/-- Whether no value starts before a token in a block. -/
def endsBlockValue : Token → Bool
  | .key | .value | .blockEnd => true
  | _ => false

/-- Whether no value starts before a token in a flow collection that ends with `closing`. -/
def endsFlowValue (closing : Token) (t : Token) : Bool :=
  t = .flowEntry || t = closing

mutual

/-- Reads a value. `block` says that it may be a block, and `flat` that a sequence may stand in the
    column of the mapping around it. -/
def read (fuel : Nat) (block flat : Bool) (env : Names) (ts : List Token) : Option Reading :=
  match fuel with
  | 0 => none
  | fuel + 1 =>
    match ts with
    | .alias name :: ts => (env.numbers.lookup name).map fun n => (.alias n, env, ts)
    | ts => do
      let (anchor, tag, ts) := properties ts
      let tag ← tag.mapM (·.resolve? env.handles)
      match anchor with
      | none => readContent fuel block flat tag.isSome tag env ts
      | some name => do
        let (v, after, ts) ← readContent fuel block flat true tag (env.anchor name) ts
        return (.anchored env.next v, after, ts)

/-- Reads a value after its anchor and its tag; `marked` says that it has one. -/
def readContent (fuel : Nat) (block flat marked : Bool) (tag : Option Octets) (env : Names)
    (ts : List Token) : Option Reading :=
  match fuel with
  | 0 => none
  | fuel + 1 =>
    match ts with
    | .scalar text style :: ts => some (.scalar text style tag, env, ts)
    | .flowSequenceStart :: ts => readFlowSequence fuel true [] env ts
    | .flowMappingStart :: ts => readFlowMapping fuel true [] env ts
    | .blockEntry :: _ =>
      if flat then readFlatSequence fuel [] env ts
      else if marked then some (nothing tag, env, ts)
      else none
    | .blockSequenceStart :: rest =>
      if block then readBlockSequence fuel [] env rest
      else if marked then some (nothing tag, env, ts)
      else none
    | .blockMappingStart :: rest =>
      if block then readBlockMapping fuel [] env rest
      else if marked then some (nothing tag, env, ts)
      else none
    | ts => if marked then some (nothing tag, env, ts) else none

/-- Reads the entries of a block sequence, given those read so far, newest first. -/
def readBlockSequence (fuel : Nat) (values : List Tree) (env : Names) (ts : List Token) :
    Option Reading :=
  match fuel with
  | 0 => none
  | fuel + 1 =>
    match ts with
    | .blockEnd :: ts => some (.sequence values.reverse, env, ts)
    | .blockEntry :: t :: ts =>
      if t = .blockEntry || t = .blockEnd then
        readBlockSequence fuel (nothing none :: values) env (t :: ts)
      else do
        let (v, env, ts) ← read fuel true false env (t :: ts)
        readBlockSequence fuel (v :: values) env ts
    | _ => none

/-- Reads the entries of a sequence in the column of the mapping around it. -/
def readFlatSequence (fuel : Nat) (values : List Tree) (env : Names) (ts : List Token) :
    Option Reading :=
  match fuel with
  | 0 => none
  | fuel + 1 =>
    match ts with
    | .blockEntry :: t :: ts =>
      if t = .blockEntry || endsBlockValue t then
        readFlatSequence fuel (nothing none :: values) env (t :: ts)
      else do
        let (v, env, ts) ← read fuel true false env (t :: ts)
        readFlatSequence fuel (v :: values) env ts
    | ts => some (.sequence values.reverse, env, ts)

/-- Reads a key or a value of a block mapping. -/
def readBlockPart (fuel : Nat) (env : Names) (ts : List Token) : Option Reading :=
  match fuel with
  | 0 => none
  | fuel + 1 =>
    if ts.head?.any endsBlockValue then some (nothing none, env, ts)
    else read fuel true true env ts

/-- Reads the entries of a block mapping, given those read so far, newest first. -/
def readBlockMapping (fuel : Nat) (entries : List (Tree × Tree)) (env : Names)
    (ts : List Token) : Option Reading :=
  match fuel with
  | 0 => none
  | fuel + 1 =>
    match ts with
    | .blockEnd :: ts => some (.mapping entries.reverse, env, ts)
    | .key :: ts => do
      let (k, env, ts) ← readBlockPart fuel env ts
      match ts with
      | .value :: ts => do
        let (v, env, ts) ← readBlockPart fuel env ts
        readBlockMapping fuel ((k, v) :: entries) env ts
      | ts => readBlockMapping fuel ((k, nothing none) :: entries) env ts
    | _ => none

/-- Reads a key or a value in a flow collection that ends with `closing`. -/
def readFlowPart (fuel : Nat) (closing : Token) (env : Names) (ts : List Token) :
    Option Reading :=
  match fuel with
  | 0 => none
  | fuel + 1 =>
    if ts.head?.any fun t => t = .value || endsFlowValue closing t then
      some (nothing none, env, ts)
    else
      read fuel false false env ts

/-- Reads what follows a key in a flow collection that ends with `closing`. -/
def readFlowValue (fuel : Nat) (closing : Token) (env : Names) (ts : List Token) :
    Option Reading :=
  match fuel with
  | 0 => none
  | fuel + 1 =>
    match ts with
    | .value :: ts =>
      if ts.head?.any (endsFlowValue closing) then some (nothing none, env, ts)
      else read fuel false false env ts
    | ts => some (nothing none, env, ts)

/-- Reads the entries of a flow sequence, given those read so far, newest first. -/
def readFlowSequence (fuel : Nat) (first : Bool) (values : List Tree) (env : Names)
    (ts : List Token) : Option Reading :=
  match fuel with
  | 0 => none
  | fuel + 1 => do
    if ts.head? = some .flowSequenceEnd then
      return (.sequence values.reverse, env, ts.tail)
    let ts ←
      match first, ts with
      | true, ts => some ts
      | false, .flowEntry :: ts => some ts
      | false, _ => none
    match ts with
    | .flowSequenceEnd :: ts => return (.sequence values.reverse, env, ts)
    | .key :: ts => do
      let (k, env, ts) ← readFlowPart fuel .flowSequenceEnd env ts
      let (v, env, ts) ← readFlowValue fuel .flowSequenceEnd env ts
      readFlowSequence fuel false (.mapping [(k, v)] :: values) env ts
    | ts => do
      let (v, env, ts) ← read fuel false false env ts
      readFlowSequence fuel false (v :: values) env ts

/-- Reads the entries of a flow mapping, given those read so far, newest first. -/
def readFlowMapping (fuel : Nat) (first : Bool) (entries : List (Tree × Tree)) (env : Names)
    (ts : List Token) : Option Reading :=
  match fuel with
  | 0 => none
  | fuel + 1 => do
    if ts.head? = some .flowMappingEnd then
      return (.mapping entries.reverse, env, ts.tail)
    let ts ←
      match first, ts with
      | true, ts => some ts
      | false, .flowEntry :: ts => some ts
      | false, _ => none
    match ts with
    | .flowMappingEnd :: ts => return (.mapping entries.reverse, env, ts)
    | .key :: ts => do
      let (k, env, ts) ← readFlowPart fuel .flowMappingEnd env ts
      let (v, env, ts) ← readFlowValue fuel .flowMappingEnd env ts
      readFlowMapping fuel false ((k, v) :: entries) env ts
    | ts => do
      let (k, env, ts) ← read fuel false false env ts
      readFlowMapping fuel false ((k, nothing none) :: entries) env ts

end

/-- The directives before a document, and the tokens after them. -/
def directives : List Token → List Directive × List Token
  | .directive d :: ts => (d :: (directives ts).1, (directives ts).2)
  | ts => ([], ts)

/-- What handles stand for in a document, whether a mark starts it, and the tokens after the mark.
    Directives need the mark. -/
def header? (ts : List Token) : Option (Handles × Bool × List Token) :=
  match directives ts with
  | (ds, .documentStart :: rest) => (Directive.handles? ds).map fun handles => (handles, true, rest)
  | (ds, _) => if ds.isEmpty then some (.default, false, ts) else none

/-- Whether a document that started with a mark has no content before a token. -/
def endsDocument : Token → Bool
  | .documentStart | .documentEnd | .directive _ | .stop => true
  | _ => false

/-- The value of a text, nothing if it holds no document, and no result if it is malformed or holds
    more than one document. -/
def ofText? (text : String) : Option (Option Tree) := do
  let ts ← tokens? text
  if ts = [.stop] then
    return none
  let (handles, marked, ts) ← header? ts
  let (v, ts) ←
    if marked && ts.head?.any endsDocument then
      some (nothing none, ts)
    else
      (read (4 * ts.length + 4) true false { handles } ts).map fun (v, _, ts) => (v, ts)
  if ts.all fun t => t = .documentEnd || t = .stop then
    return some v
  else
    none

end Tree

end Formwork.Yaml
