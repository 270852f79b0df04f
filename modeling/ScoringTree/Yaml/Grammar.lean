import ScoringTree.Yaml.Node
import ScoringTree.Yaml.Token.Lexer

/-!
# ScoringTree.Yaml.Grammar

The node that a list of tokens denotes.

* `Draft`         — tokens still to be read, with the anchors known so far.
* `Draft.node?`   — one node; the collections are read by the functions beside it.
* `document?`     — the only document of a text.
-/

namespace ScoringTree
namespace Yaml

/-- The meaning of handles. -/
abbrev Handles := List (String × Tag)

namespace Handles

/-- The handles that need no directive. -/
def standard : Handles := [("!", .mark), ("!!", .coreLead)]

/-- The tag that a handle and a suffix make; none if the handle is unknown. -/
def resolve? (handles : Handles) (handle : String) (suffix : Tag) : Option Tag :=
  if handle.isEmpty then some suffix else (handles.lookup handle).map (· ++ suffix)

end Handles

structure Draft where
  tokens : List Token
  /-- The numbers of anchors by name. -/
  anchors : List (String × Nat)

namespace Draft

/-- The tokens after the first. -/
def rest (draft : Draft) : Draft := { draft with tokens := draft.tokens.tail }

/-- The next token is among those. -/
def startsWith (draft : Draft) (tokens : List Token) : Bool :=
  match draft.tokens with
  | [] => false
  | token :: _ => tokens.contains token

/-- A new anchor: its number is the number of names known so far. -/
def addAnchor (draft : Draft) (name : String) : Nat × Draft :=
  let number := draft.anchors.length
  (number, { draft with anchors := (name, number) :: draft.anchors.filter (·.1 != name) })

/-- An anchor and a tag, each at most once and in either order. -/
def properties? (handles : Handles) (draft : Draft) : Option (Properties × Draft) :=
  match draft.tokens with
  | .anchor name :: .tag handle suffix :: tokens => do
    let tag ← handles.resolve? handle suffix
    let (number, draft) := addAnchor { draft with tokens } name
    some (⟨some number, some tag⟩, draft)
  | .tag handle suffix :: .anchor name :: tokens => do
    let tag ← handles.resolve? handle suffix
    let (number, draft) := addAnchor { draft with tokens } name
    some (⟨some number, some tag⟩, draft)
  | .anchor name :: tokens =>
    let (number, draft) := addAnchor { draft with tokens } name
    some (⟨some number, none⟩, draft)
  | .tag handle suffix :: tokens => do
    let tag ← handles.resolve? handle suffix
    some (⟨none, some tag⟩, { draft with tokens })
  | _ => some (.none, draft)

mutual

/-- One node. Block collections are allowed if `inBlock`, and a sequence that is not indented if
`indentless`. The first argument bounds the steps. -/
def node? (handles : Handles) : Nat → (inBlock indentless : Bool) → Draft →
    Option (Node × Draft)
  | 0, _, _, _ => none
  | fuel + 1, inBlock, indentless, draft =>
    match draft.tokens with
    | .alias name :: _ => (draft.anchors.lookup name).map fun number => (.alias number, draft.rest)
    | _ =>
      match properties? handles draft with
      | none => none
      | some (properties, draft) =>
        let left :=
          if properties = .none then none else some (.scalar properties .plain "", draft)
        match draft.tokens with
        | .scalar style text :: _ => some (.scalar properties style text, draft.rest)
        | .flowSequenceStart :: _ =>
          (flowItems? handles fuel true draft.rest).map fun (items, draft) =>
            (.sequence properties items, draft)
        | .flowMappingStart :: _ =>
          (flowEntries? handles fuel true draft.rest).map fun (entries, draft) =>
            (.mapping properties entries, draft)
        | .blockEntry :: _ =>
          if indentless then
            (indentlessItems? handles fuel draft).map fun (items, draft) =>
              (.sequence properties items, draft)
          else left
        | .blockSequenceStart :: _ =>
          if inBlock then
            (blockItems? handles fuel draft.rest).map fun (items, draft) =>
              (.sequence properties items, draft)
          else left
        | .blockMappingStart :: _ =>
          if inBlock then
            (blockEntries? handles fuel draft.rest).map fun (entries, draft) =>
              (.mapping properties entries, draft)
          else left
        | _ => left

/-- A node, unless one of `closers` shows that it is left out. -/
def optional? (handles : Handles) : Nat → (inBlock indentless : Bool) → List Token → Draft →
    Option (Node × Draft)
  | 0, _, _, _, _ => none
  | fuel + 1, inBlock, indentless, closers, draft =>
    if draft.startsWith closers then some (.empty, draft)
    else node? handles fuel inBlock indentless draft

/-- The items of an indented sequence. -/
def blockItems? (handles : Handles) : Nat → Draft → Option (List Node × Draft)
  | 0, _ => none
  | fuel + 1, draft =>
    match draft.tokens with
    | .blockEntry :: _ => do
      let (item, draft) ←
        optional? handles fuel true false [.blockEntry, .blockEnd] draft.rest
      let (items, draft) ← blockItems? handles fuel draft
      some (item :: items, draft)
    | .blockEnd :: _ => some ([], draft.rest)
    | _ => none

/-- The items of a sequence that is as far indented as the mapping it stands in. -/
def indentlessItems? (handles : Handles) : Nat → Draft → Option (List Node × Draft)
  | 0, _ => none
  | fuel + 1, draft =>
    match draft.tokens with
    | .blockEntry :: _ => do
      let (item, draft) ←
        optional? handles fuel true false [.blockEntry, .key, .value, .blockEnd] draft.rest
      let (items, draft) ← indentlessItems? handles fuel draft
      some (item :: items, draft)
    | _ => some ([], draft)

/-- The value behind a key, unless it is left out. -/
def value? (handles : Handles) : Nat → (inBlock : Bool) → List Token → Draft →
    Option (Node × Draft)
  | 0, _, _, _ => none
  | fuel + 1, inBlock, closers, draft =>
    if draft.startsWith [.value] then optional? handles fuel inBlock inBlock closers draft.rest
    else some (.empty, draft)

/-- The entries of an indented mapping. -/
def blockEntries? (handles : Handles) : Nat → Draft → Option (List (Node × Node) × Draft)
  | 0, _ => none
  | fuel + 1, draft =>
    match draft.tokens with
    | .key :: _ => do
      let (key, draft) ← optional? handles fuel true true [.key, .value, .blockEnd] draft.rest
      let (value, draft) ← value? handles fuel true [.key, .value, .blockEnd] draft
      let (entries, draft) ← blockEntries? handles fuel draft
      some ((key, value) :: entries, draft)
    | .blockEnd :: _ => some ([], draft.rest)
    | _ => none

/-- A mapping of one entry inside a flow sequence. Where the key is left out, the token that shows
it is passed over. -/
def pair? (handles : Handles) : Nat → Draft → Option (Node × Draft)
  | 0, _ => none
  | fuel + 1, draft => do
    let (key, draft) ←
      if draft.startsWith [.value, .flowEntry, .flowSequenceEnd] then some (.empty, draft.rest)
      else node? handles fuel false false draft
    let (value, draft) ← value? handles fuel false [.flowEntry, .flowSequenceEnd] draft
    some (.mapping .none [(key, value)], draft)

/-- The items of a flow sequence; a comma stands before all but the first. -/
def flowItems? (handles : Handles) : Nat → (first : Bool) → Draft → Option (List Node × Draft)
  | 0, _, _ => none
  | fuel + 1, first, draft =>
    if draft.startsWith [.flowSequenceEnd] then some ([], draft.rest)
    else if !first && !draft.startsWith [.flowEntry] then none
    else
      let draft := if first then draft else draft.rest
      if draft.startsWith [.flowSequenceEnd] then some ([], draft.rest)
      else do
        let (item, draft) ←
          if draft.startsWith [.key] then pair? handles fuel draft.rest
          else node? handles fuel false false draft
        let (items, draft) ← flowItems? handles fuel false draft
        some (item :: items, draft)

/-- The entries of a flow mapping; a comma stands before all but the first. A key that is not
followed by a colon has no value. -/
def flowEntries? (handles : Handles) : Nat → (first : Bool) → Draft →
    Option (List (Node × Node) × Draft)
  | 0, _, _ => none
  | fuel + 1, first, draft =>
    if draft.startsWith [.flowMappingEnd] then some ([], draft.rest)
    else if !first && !draft.startsWith [.flowEntry] then none
    else
      let draft := if first then draft else draft.rest
      if draft.startsWith [.flowMappingEnd] then some ([], draft.rest)
      else if draft.startsWith [.key] then do
        let (key, draft) ←
          optional? handles fuel false false [.value, .flowEntry, .flowMappingEnd] draft.rest
        let (value, draft) ← value? handles fuel false [.flowEntry, .flowMappingEnd] draft
        let (entries, draft) ← flowEntries? handles fuel false draft
        some ((key, value) :: entries, draft)
      else do
        let (key, draft) ← node? handles fuel false false draft
        let (entries, draft) ← flowEntries? handles fuel false draft
        some ((key, .empty) :: entries, draft)

end

end Draft

/-! ## Documents -/

/-- The directives in front of a document. A version must be one of the two known ones, and neither
it nor a handle may be given twice. -/
def directives? (versioned : Bool) (handles : Handles) : List Token → Option (Handles × List Token)
  | .version major minor :: tokens =>
    if versioned || major != 1 || (minor != 1 && minor != 2) then none
    else directives? true handles tokens
  | .handle name lead :: tokens =>
    if (handles.lookup name).isSome then none
    else directives? versioned ((name, lead) :: handles) tokens
  | tokens => some (handles ++ Handles.standard, tokens)

/-- The next token cannot begin the content of a document. -/
def endsDocument : List Token → Bool
  | [] => true
  | .version _ _ :: _ => true
  | .handle _ _ :: _ => true
  | .documentStart :: _ => true
  | .documentEnd :: _ => true
  | _ => false

/-- More steps than any list of that many tokens takes. -/
def stepBound (tokens : List Token) : Nat := 4 * tokens.length + 4

/-- The document that the tokens hold. It may start without a mark if there are no directives.
Behind it there may be nothing but marks that end it. -/
def documentOf? (tokens : List Token) : Option Node := do
  let fuel := stepBound tokens
  let (node, draft) ←
    match tokens with
    | [] => none
    | .documentEnd :: _ => none
    | _ =>
      if endsDocument tokens then
        match directives? false [] tokens with
        | some (handles, .documentStart :: tokens) =>
          if endsDocument tokens then some (.empty, ⟨tokens, []⟩)
          else Draft.node? handles fuel true false ⟨tokens, []⟩
        | _ => none
      else Draft.node? Handles.standard fuel true false ⟨tokens, []⟩
  if draft.tokens.all (· == .documentEnd) then some node else none

/-- The only document of a text; none if there is no document, more than one, or a fault. -/
def document? (text : String) : Option Node := do
  let characters ← readText text
  let tokens ← tokens? characters
  documentOf? tokens

end Yaml
end ScoringTree
