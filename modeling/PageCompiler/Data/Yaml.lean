import PageCompiler.Data.Value
import PageCompiler.Data.Yaml.Token

-- Unquoted scalars become words, so that who asks for a value decides what they mean; a missing
-- node is the empty word.
namespace PageCompiler.Data.Yaml

def absent : Value := .word ""

-- Tokens that are left, the values of named nodes with the last one first, and what the handles of
-- tags stand for.
structure Reading where
  tokens : List Token
  names : List (String × Value) := []
  handles : List (String × String)
  deriving Repr

namespace Reading

-- Reading goes on with these tokens.
def resume (r : Reading) (tokens : List Token) : Reading := { r with tokens := tokens }

def startsAny (marks : List Token) (r : Reading) : Bool :=
  match r.tokens with
  | t :: _ => marks.contains t
  | [] => false

-- Names a node before its content is known. Inside of itself it cannot be read.
def declare (name : Option String) (r : Reading) : Reading :=
  match name with
  | some name => { r with names := (name, .unreadable) :: r.names }
  | none => r

-- Gives the node that was named when `before` names were known its value.
def settle (name : Option String) (before : Nat) (v : Value) (r : Reading) : Reading :=
  match name with
  | some name => { r with names := r.names.set (r.names.length - 1 - before) (name, v) }
  | none => r

-- What a tag says in full.
def tagText? (tag : Tag) (r : Reading) : Option String :=
  if tag.handle.isEmpty then some tag.suffix
  else (r.handles.lookup tag.handle).map (· ++ tag.suffix)

-- The name and the tag in front of a node, in either order.
def properties? (r : Reading) : Option (Option String × Option String × Reading) :=
  match r.tokens with
  | .anchor name :: .tag tag :: rest =>
    (r.tagText? tag).map fun tag => (some name, some tag, r.resume rest)
  | .tag tag :: .anchor name :: rest =>
    (r.tagText? tag).map fun tag => (some name, some tag, r.resume rest)
  | .anchor name :: rest => some (some name, none, r.resume rest)
  | .tag tag :: rest => (r.tagText? tag).map fun tag => (none, some tag, r.resume rest)
  | _ => some (none, none, r)

end Reading

def boolTag : String := "tag:yaml.org,2002:bool"

def intTag : String := "tag:yaml.org,2002:int"

-- A block of lines kept as they are may be typed by its tag.
def isTypedBlock (tag : Option String) (text : String) : Bool :=
  (tag = some boolTag && (Value.word text).toBool?.isSome) ||
    (tag = some intTag && (Value.word text).toNatural?.isSome)

def scalarOf (tag : Option String) (style : ScalarStyle) (text : String) : Value :=
  let v :=
    match style with
    | .plain => .word text
    | .literal => if isTypedBlock tag text then .word text else .text text
    | _ => .text text
  match tag with
  | none | some "!" => v
  | some tag => .tagged tag v

-- The empty node behind a name or a tag.
def emptyOf (tag : Option String) : Value :=
  match tag with
  | none => absent
  | some tag => .tagged tag absent

-- Keys are texts; with a key of another kind the mapping cannot be taken apart.
def recordOf (entries : List (Value × Value)) : Value :=
  match entries.mapM fun (key, v) => key.toText?.map fun key => (key, v) with
  | some fields => .record fields
  | none => .unreadable

mutual

-- A node. Block collections are read only if `block` is set, and a sequence that is not indented
-- only if `loose` is.
def node? : (fuel : Nat) → (block loose : Bool) → Reading → Option (Value × Reading)
  | 0, _, _, _ => none
  | fuel + 1, block, loose, r =>
    match r.tokens with
    | .alias name :: rest => (r.names.lookup name).map fun v => (v, r.resume rest)
    | _ => do
      let (name, tag, r) ← r.properties?
      let before := r.names.length
      let r := r.declare name
      let (v, r) ←
        match r.tokens with
        | .scalar style text :: rest => some (scalarOf tag style text, r.resume rest)
        | .flowSequence :: rest =>
          (flowItems? fuel true (r.resume rest)).map fun (vs, r) => (Value.list vs, r)
        | .flowMapping :: rest =>
          (flowEntries? fuel true (r.resume rest)).map fun (es, r) => (recordOf es, r)
        | tokens =>
          if loose && r.startsAny [.entry] then
            (looseItems? fuel r).map fun (vs, r) => (Value.list vs, r)
          else if block && r.startsAny [.blockSequence] then
            (blockItems? fuel (r.resume (tokens.drop 1))).map fun (vs, r) => (Value.list vs, r)
          else if block && r.startsAny [.blockMapping] then
            (blockEntries? fuel (r.resume (tokens.drop 1))).map fun (es, r) => (recordOf es, r)
          else if name.isSome || tag.isSome then some (emptyOf tag, r)
          else none
      return (v, r.settle name before v)

def blockItems? : (fuel : Nat) → Reading → Option (List Value × Reading)
  | 0, _ => none
  | fuel + 1, r =>
    match r.tokens with
    | .entry :: rest => do
      let r := r.resume rest
      let (v, r) ←
        if r.startsAny [.entry, .blockEnd] then some (absent, r) else node? fuel true false r
      let (vs, r) ← blockItems? fuel r
      return (v :: vs, r)
    | .blockEnd :: rest => some ([], r.resume rest)
    | _ => none

-- Items at the column of the keys around them.
def looseItems? : (fuel : Nat) → Reading → Option (List Value × Reading)
  | 0, _ => none
  | fuel + 1, r =>
    match r.tokens with
    | .entry :: rest => do
      let r := r.resume rest
      let (v, r) ←
        if r.startsAny [.entry, .key, .value, .blockEnd] then some (absent, r)
        else node? fuel true false r
      let (vs, r) ← looseItems? fuel r
      return (v :: vs, r)
    | _ => some ([], r)

def blockEntries? : (fuel : Nat) → Reading → Option (List (Value × Value) × Reading)
  | 0, _ => none
  | fuel + 1, r =>
    match r.tokens with
    | .key :: rest => do
      let (key, r) ← blockPart? fuel (r.resume rest)
      let (v, r) ←
        match r.tokens with
        | .value :: rest => blockPart? fuel (r.resume rest)
        | _ => some (absent, r)
      let (es, r) ← blockEntries? fuel r
      return ((key, v) :: es, r)
    | .blockEnd :: rest => some ([], r.resume rest)
    | _ => none

-- A key or a value of a block mapping, which may be missing.
def blockPart? : (fuel : Nat) → Reading → Option (Value × Reading)
  | 0, _ => none
  | fuel + 1, r =>
    if r.startsAny [.key, .value, .blockEnd] then some (absent, r) else node? fuel true true r

def flowItems? : (fuel : Nat) → (first : Bool) → Reading → Option (List Value × Reading)
  | 0, _, _ => none
  | fuel + 1, first, r =>
    if r.startsAny [.flowSequenceEnd] then some ([], r.resume (r.tokens.drop 1))
    else if !first && !r.startsAny [.flowEntry] then none
    else
      let r := if first then r else r.resume (r.tokens.drop 1)
      match r.tokens with
      | .flowSequenceEnd :: rest => some ([], r.resume rest)
      | .key :: rest => do
        let (v, r) ← pair? fuel (r.resume rest)
        let (vs, r) ← flowItems? fuel false r
        return (v :: vs, r)
      | _ => do
        let (v, r) ← node? fuel false false r
        let (vs, r) ← flowItems? fuel false r
        return (v :: vs, r)

-- A mapping of one entry without braces. When its key is missing, so is the mark behind it.
def pair? : (fuel : Nat) → Reading → Option (Value × Reading)
  | 0, _ => none
  | fuel + 1, r => do
    let (key, r) ←
      if r.startsAny [.value, .flowEntry, .flowSequenceEnd] then
        some (absent, r.resume (r.tokens.drop 1))
      else node? fuel false false r
    let (v, r) ← flowValue? fuel .flowSequenceEnd r
    return (recordOf [(key, v)], r)

-- The value of an entry, which may be missing with or without its colon.
def flowValue? : (fuel : Nat) → (close : Token) → Reading → Option (Value × Reading)
  | 0, _, _ => none
  | fuel + 1, close, r =>
    match r.tokens with
    | .value :: rest =>
      let r := r.resume rest
      if r.startsAny [.flowEntry, close] then some (absent, r) else node? fuel false false r
    | _ => some (absent, r)

def flowEntries? : (fuel : Nat) → (first : Bool) → Reading →
    Option (List (Value × Value) × Reading)
  | 0, _, _ => none
  | fuel + 1, first, r =>
    if r.startsAny [.flowMappingEnd] then some ([], r.resume (r.tokens.drop 1))
    else if !first && !r.startsAny [.flowEntry] then none
    else
      let r := if first then r else r.resume (r.tokens.drop 1)
      match r.tokens with
      | .flowMappingEnd :: rest => some ([], r.resume rest)
      | .key :: rest => do
        let r := r.resume rest
        let (key, r) ←
          if r.startsAny [.value, .flowEntry, .flowMappingEnd] then some (absent, r)
          else node? fuel false false r
        let (v, r) ← flowValue? fuel .flowMappingEnd r
        let (es, r) ← flowEntries? fuel false r
        return ((key, v) :: es, r)
      | _ => do
        let (key, r) ← node? fuel false false r
        let (es, r) ← flowEntries? fuel false r
        return ((key, absent) :: es, r)

end

-- What the handles stand for that no directive speaks of.
def commonHandles : List (String × String) := [("!", "!"), ("!!", "tag:yaml.org,2002:")]

-- The handles of the directives. There is at most one version, which must be known, and one
-- directive for a handle.
def handles? : (versioned : Bool) → List Directive → Option (List (String × String))
  | _, [] => some []
  | versioned, .version major minor :: rest =>
    if versioned || major ≠ 1 || (minor ≠ 1 && minor ≠ 2) then none else handles? true rest
  | versioned, .handle handle stem :: rest => do
    let more ← handles? versioned rest
    if (more.lookup handle).isSome then none else some ((handle, stem) :: more)

-- The directives in front of a document, and the other tokens.
def splitDirectives : List Token → List Directive × List Token
  | .directive d :: rest =>
    match splitDirectives rest with
    | (ds, rest) => (d :: ds, rest)
  | tokens => ([], tokens)

-- The only document of the tokens. Without directives its start need not be marked.
def document? (tokens : List Token) : Option Value := do
  let (directives, rest) := splitDirectives tokens
  let handles ← handles? false directives
  let r : Reading := { tokens := rest, handles := handles ++ commonHandles }
  let fuel := 3 * tokens.length + 3
  let (v, r) ←
    match rest with
    | .documentStart :: rest =>
      let r := r.resume rest
      let ends := match rest with
        | [] | .documentStart :: _ | .documentEnd :: _ | .directive _ :: _ => true
        | _ => false
      if ends then some (absent, r) else node? fuel true false r
    | [] => if directives.isEmpty then some (absent, r) else none
    | _ => if directives.isEmpty then node? fuel true false r else none
  if (r.tokens.dropWhile (· == .documentEnd)).isEmpty then return v else none

def parse? (text : String) : Option Value := do document? (← tokens? text)

end PageCompiler.Data.Yaml
