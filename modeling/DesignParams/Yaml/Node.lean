import DesignParams.Yaml.Token

/-!
# YAML nodes

A document is a tree of nodes. An alias stands for the node with its anchor, the last one before
it in the document.
-/
set_option autoImplicit false

namespace DesignParams

namespace Yaml

inductive Node where
  | scalar (tag : Option Text) (style : ScalarStyle) (text : Text)
  | sequence (items : List Node)
  | mapping (entries : List (Node × Node))
deriving Repr

def Node.empty : Node :=
  .scalar none .plain []

structure Names where
  /-- Tag handles with the texts they stand for. -/
  handles : List (Text × Text)
  /-- Anchored nodes, the last one first. -/
  anchors : List (Text × Node)

abbrev NodeReader (α : Type) := Names → List Token → Option (α × Names × List Token)

namespace Node

structure Properties where
  anchor : Option Text
  tag : Option (Text × Text)

def properties : List Token → Properties × List Token
  | .anchor name :: .tag handle suffix :: rest => (⟨some name, some (handle, suffix)⟩, rest)
  | .tag handle suffix :: .anchor name :: rest => (⟨some name, some (handle, suffix)⟩, rest)
  | .anchor name :: rest => (⟨some name, none⟩, rest)
  | .tag handle suffix :: rest => (⟨none, some (handle, suffix)⟩, rest)
  | rest => (⟨none, none⟩, rest)

def resolveTag? (names : Names) (tag : Text × Text) : Option Text :=
  if tag.1.isEmpty then some tag.2 else (names.handles.lookup tag.1).map (· ++ tag.2)

def anchored (names : Names) (anchor : Option Text) (node : Node) : Names :=
  match anchor with
  | some name => { names with anchors := (name, node) :: names.anchors }
  | none => names

/-- Does a token leave out the item before it? -/
def endsItem : Token → Bool
  | .blockEntry | .blockEnd => true
  | _ => false

def endsEntry : Token → Bool
  | .key | .value | .blockEnd => true
  | _ => false

def endsOpenItem (token : Token) : Bool :=
  endsItem token || endsEntry token

def endsFlow : Token → Bool
  | .flowEntry | .flowSequenceEnd | .flowMappingEnd => true
  | _ => false

def endsFlowKey (token : Token) : Bool :=
  token == .value || endsFlow token

def presentNode? (ends : Token → Bool) (node : NodeReader Node) : NodeReader Node :=
  fun names tokens =>
  match tokens with
  | [] => none
  | token :: rest => if ends token then some (.empty, names, token :: rest) else node names (token :: rest)

/-- The tokens of the next item in brackets: behind a comma, unless it is the first. -/
def flowNext? (isFirst : Bool) (stop : Token) (tokens : List Token) : Option (List Token) :=
  match tokens with
  | [] => none
  | token :: rest =>
    if isFirst || token == stop then some (token :: rest)
    else if token == .flowEntry then some rest
    else none

mutual

/-- Reads a node. Block collections may begin here unless `inFlow`; after a mark of a mapping, a
list may begin without a collection of its own. -/
def read? (fuel : Nat) (inFlow isOpen : Bool) : NodeReader Node := fun names tokens =>
  match fuel with
  | 0 => none
  | fuel + 1 =>
    match tokens with
    | .alias name :: rest => (names.anchors.lookup name).map (·, names, rest)
    | _ =>
      let (found, rest) := properties tokens
      let isMarked := found.anchor.isSome || found.tag.isSome
      let content (tag : Option Text) : Option (Node × Names × List Token) :=
        match rest with
        | .scalar text style :: rest => some (.scalar tag style text, names, rest)
        | .flowSequence :: rest => (flowItems? fuel true names rest).map collect
        | .flowMapping :: rest => (flowEntries? fuel true names rest).map collectEntries
        | .blockSequence :: rest => if inFlow then none else (blockItems? fuel names rest).map collect
        | .blockMapping :: rest => if inFlow then none else (blockEntries? fuel names rest).map collectEntries
        | .blockEntry :: rest =>
          if isOpen then (openItems? fuel names (.blockEntry :: rest)).map collect
          else if isMarked then some (.scalar tag .plain [], names, .blockEntry :: rest)
          else none
        | rest => if isMarked then some (.scalar tag .plain [], names, rest) else none
      let result :=
        match found.tag with
        | none => content none
        | some tag =>
          match resolveTag? names tag with
          | none => none
          | some text => content (some text)
      result.map fun (node, names, rest) => (node, anchored names found.anchor node, rest)
where
  collect : List Node × Names × List Token → Node × Names × List Token
    | (items, names, rest) => (.sequence items, names, rest)
  collectEntries : List (Node × Node) × Names × List Token → Node × Names × List Token
    | (entries, names, rest) => (.mapping entries, names, rest)

def blockItems? (fuel : Nat) : NodeReader (List Node) := fun names tokens =>
  match fuel with
  | 0 => none
  | fuel + 1 =>
    match tokens with
    | .blockEntry :: rest => do
      let (item, names, rest) ← presentNode? endsItem (read? fuel false false) names rest
      let (items, names, rest) ← blockItems? fuel names rest
      return (item :: items, names, rest)
    | .blockEnd :: rest => some ([], names, rest)
    | _ => none

/-- Reads the items of a list in a mapping that has no collection of its own. -/
def openItems? (fuel : Nat) : NodeReader (List Node) := fun names tokens =>
  match fuel with
  | 0 => none
  | fuel + 1 =>
    match tokens with
    | .blockEntry :: rest => do
      let (item, names, rest) ← presentNode? endsOpenItem (read? fuel false false) names rest
      let (items, names, rest) ← openItems? fuel names rest
      return (item :: items, names, rest)
    | rest => some ([], names, rest)

def blockEntries? (fuel : Nat) : NodeReader (List (Node × Node)) := fun names tokens =>
  match fuel with
  | 0 => none
  | fuel + 1 =>
    match tokens with
    | .key :: rest => do
      let (key, names, rest) ← presentNode? endsEntry (read? fuel false true) names rest
      let (value, names, rest) ← blockValue? fuel names rest
      let (entries, names, rest) ← blockEntries? fuel names rest
      return ((key, value) :: entries, names, rest)
    | .blockEnd :: rest => some ([], names, rest)
    | _ => none

def blockValue? (fuel : Nat) : NodeReader Node := fun names tokens =>
  match fuel with
  | 0 => none
  | fuel + 1 =>
    match tokens with
    | .value :: rest => presentNode? endsEntry (read? fuel false true) names rest
    | rest => some (.empty, names, rest)

def flowItems? (fuel : Nat) (isFirst : Bool) : NodeReader (List Node) := fun names tokens =>
  match fuel with
  | 0 => none
  | fuel + 1 => do
    let next ← flowNext? isFirst .flowSequenceEnd tokens
    match next with
    | .flowSequenceEnd :: rest => return ([], names, rest)
    | .key :: rest =>
      let (key, names, rest) ← presentNode? endsFlowKey (read? fuel true false) names rest
      let (value, names, rest) ← flowValue? fuel names rest
      let (items, names, rest) ← flowItems? fuel false names rest
      return (.mapping [(key, value)] :: items, names, rest)
    | rest =>
      let (item, names, rest) ← read? fuel true false names rest
      let (items, names, rest) ← flowItems? fuel false names rest
      return (item :: items, names, rest)

def flowEntries? (fuel : Nat) (isFirst : Bool) : NodeReader (List (Node × Node)) := fun names tokens =>
  match fuel with
  | 0 => none
  | fuel + 1 => do
    let next ← flowNext? isFirst .flowMappingEnd tokens
    match next with
    | .flowMappingEnd :: rest => return ([], names, rest)
    | .key :: rest =>
      let (key, names, rest) ← presentNode? endsFlowKey (read? fuel true false) names rest
      let (value, names, rest) ← flowValue? fuel names rest
      let (entries, names, rest) ← flowEntries? fuel false names rest
      return ((key, value) :: entries, names, rest)
    | rest =>
      let (key, names, rest) ← read? fuel true false names rest
      let (entries, names, rest) ← flowEntries? fuel false names rest
      return ((key, .empty) :: entries, names, rest)

def flowValue? (fuel : Nat) : NodeReader Node := fun names tokens =>
  match fuel with
  | 0 => none
  | fuel + 1 =>
    match tokens with
    | .value :: rest => presentNode? endsFlow (read? fuel true false) names rest
    | rest => some (.empty, names, rest)

end

/-! ## Documents -/

def defaultHandles : List (Text × Text) :=
  [("!".toList, "!".toList), ("!!".toList, "tag:yaml.org,2002:".toList)]

/-- Reads directives: at most one version, 1.1 or 1.2, and handles that differ. -/
def directives? (hasVersion : Bool) (handles : List (Text × Text)) :
    List Token → Option (Bool × List (Text × Text) × List Token)
  | .version major minor :: rest =>
    if hasVersion || major ≠ 1 || (minor ≠ 1 && minor ≠ 2) then none
    else directives? true handles rest
  | .tagHandle handle lead :: rest =>
    if handles.any (·.1 == handle) then none
    else directives? hasVersion (handles ++ [(handle, lead)]) rest
  | rest => some (hasVersion || !handles.isEmpty, handles, rest)

/-- Reads the only document of a stream; a stream without documents has no node. -/
def document? (tokens : List Token) : Option (Option Node) :=
  match tokens with
  | [] => some none
  | _ =>
    match directives? false [] tokens with
    | none => none
    | some (hasDirectives, handles, rest) =>
      let names : Names := ⟨handles ++ defaultHandles, []⟩
      let body :=
        match rest with
        | .documentStart :: rest => content? names rest
        | rest => if hasDirectives then none else read? fuel false false names rest
      match body with
      | some (node, _, rest) => if endsStream rest then some (some node) else none
      | none => none
where
  /-- No node is read in more steps than this. -/
  fuel : Nat :=
    4 * tokens.length + 4
  content? (names : Names) (rest : List Token) : Option (Node × Names × List Token) :=
    match rest with
    | [] | .documentStart :: _ | .documentEnd :: _ | .version _ _ :: _ | .tagHandle _ _ :: _ =>
      some (.empty, names, rest)
    | rest => read? fuel false false names rest
  endsStream (rest : List Token) : Bool :=
    rest.all (· == .documentEnd)

def parse? (s : Text) : Option (Option Node) :=
  (tokens? s).bind document?

end Node

end Yaml

end DesignParams
