import Mathlib.Data.List.Basic

/-!
# XML documents as streams

A pull parser hands out a document token by token, and its user reads the text of an element or
skips the element. Names and texts are lists of characters of any type.

## Main definitions

- `Node`, `Node.tokens`: the tree of a document and its tokens
- `Node.elements`: the elements of a name, in the order of the document
- `skipCurrentElement`, `readElementText`: the operations of the parser, behind the start of an
  element

## Main results

- `skipCurrentElement_element`, `readElementText_text`: what they do with the tokens of an element
-/

namespace XmlStream

variable {α : Type*}

abbrev Attributes (α : Type*) := List (List α × List α)

inductive Token (α : Type*)
  | startElement (name : List α) (attributes : Attributes α)
  | endElement (name : List α)
  | characters (text : List α)
  | other

inductive Node (α : Type*)
  | element (name : List α) (attributes : Attributes α) (children : List (Node α))
  | characters (text : List α)
  | other

/-- An element, without its name. -/
structure Element (α : Type*) where
  attributes : Attributes α
  children : List (Node α)

/-- The value of an attribute, or nothing. -/
def Attributes.value [BEq α] (attributes : Attributes α) (name : List α) : List α :=
  (attributes.lookup name).getD []

namespace Node

mutual

def tokens : Node α → List (Token α)
  | element name attributes children =>
    .startElement name attributes :: (listTokens children ++ [.endElement name])
  | characters text => [.characters text]
  | other => [.other]

def listTokens : List (Node α) → List (Token α)
  | [] => []
  | node :: nodes => node.tokens ++ listTokens nodes

end

section Elements

variable [DecidableEq α] (name : List α)

mutual

def elements : Node α → List (Element α)
  | element name' attributes children =>
    (if name' = name then [⟨attributes, children⟩] else []) ++ listElements children
  | characters _ => []
  | other => []

def listElements : List (Node α) → List (Element α)
  | [] => []
  | node :: nodes => node.elements ++ listElements nodes

end

end Elements

/-- Texts, without elements. -/
def IsText : Node α → Prop
  | element .. => False
  | characters _ | other => True

instance : ∀ node : Node α, Decidable node.IsText
  | element .. => isFalse id
  | characters _ => isTrue trivial
  | other => isTrue trivial

def listText : List (Node α) → List α
  | [] => []
  | characters text :: nodes => text ++ listText nodes
  | element .. :: nodes | other :: nodes => listText nodes

end Node

/-! ### The parser -/

/-- Skips to the end of an element in which `depth` others are open. -/
def skipCurrentElement : ℕ → List (Token α) → List (Token α)
  | _, [] => []
  | depth, .startElement .. :: rest => skipCurrentElement (depth + 1) rest
  | 0, .endElement _ :: rest => rest
  | depth + 1, .endElement _ :: rest => skipCurrentElement depth rest
  | depth, .characters _ :: rest => skipCurrentElement depth rest
  | depth, .other :: rest => skipCurrentElement depth rest

/-- The text of an element and what comes behind its end. Another element in it is an error. -/
def readElementText : List (Token α) → Option (List α × List (Token α))
  | [] => none
  | .startElement .. :: _ => none
  | .endElement _ :: rest => some ([], rest)
  | .characters text :: rest => (readElementText rest).map fun read => (text ++ read.1, read.2)
  | .other :: rest => readElementText rest

theorem length_skipCurrentElement_le (depth : ℕ) (stream : List (Token α)) :
    (skipCurrentElement depth stream).length ≤ stream.length := by
  induction stream generalizing depth with
  | nil => exact Nat.le_refl _
  | cons token rest ih =>
    cases token with
    | endElement name =>
      cases depth with
      | zero => exact Nat.le_succ _
      | succ depth => exact Nat.le_succ_of_le (ih depth)
    | _ => exact Nat.le_succ_of_le (ih _)

theorem length_of_readElementText {stream rest : List (Token α)} {text : List α}
    (h : readElementText stream = some (text, rest)) : rest.length ≤ stream.length := by
  induction stream generalizing text with
  | nil => cases h
  | cons token stream ih =>
    cases token with
    | startElement name attributes => cases h
    | endElement name =>
      cases h
      exact Nat.le_succ _
    | characters first =>
      obtain ⟨⟨more, rest'⟩, hread, heq⟩ := Option.map_eq_some_iff.mp h
      cases heq
      exact Nat.le_succ_of_le (ih hread)
    | other => exact Nat.le_succ_of_le (ih h)

mutual

theorem skipCurrentElement_tokens : ∀ (node : Node α) (depth : ℕ) (rest : List (Token α)),
    skipCurrentElement depth (node.tokens ++ rest) = skipCurrentElement depth rest
  | .element name attributes children, depth, rest => by
    rw [Node.tokens, List.cons_append, skipCurrentElement, List.append_assoc,
      skipCurrentElement_listTokens children, List.singleton_append, skipCurrentElement]
  | .characters text, depth, rest => by
    rw [Node.tokens, List.singleton_append, skipCurrentElement]
  | .other, depth, rest => by
    rw [Node.tokens, List.singleton_append, skipCurrentElement]

theorem skipCurrentElement_listTokens : ∀ (nodes : List (Node α)) (depth : ℕ)
    (rest : List (Token α)),
    skipCurrentElement depth (Node.listTokens nodes ++ rest) = skipCurrentElement depth rest
  | [], depth, rest => rfl
  | node :: nodes, depth, rest => by
    rw [Node.listTokens, List.append_assoc, skipCurrentElement_tokens node,
      skipCurrentElement_listTokens nodes]

end

/-- An element is skipped to its end. -/
theorem skipCurrentElement_element (children : List (Node α)) (name : List α)
    (rest : List (Token α)) :
    skipCurrentElement 0 (Node.listTokens children ++ .endElement name :: rest) = rest := by
  rw [skipCurrentElement_listTokens, skipCurrentElement]

/-- The texts of an element without others are read together. -/
theorem readElementText_text {children : List (Node α)} (h : ∀ child ∈ children, child.IsText)
    (name : List α) (rest : List (Token α)) :
    readElementText (Node.listTokens children ++ .endElement name :: rest) =
      some (Node.listText children, rest) := by
  induction children with
  | nil => rfl
  | cons child children ih =>
    rw [List.forall_mem_cons] at h
    rw [Node.listTokens, List.append_assoc]
    cases child with
    | element => exact absurd h.1 id
    | characters text =>
      rw [Node.tokens, List.singleton_append, readElementText, ih h.2, Node.listText]
      rfl
    | other => rw [Node.tokens, List.singleton_append, readElementText, ih h.2, Node.listText]

end XmlStream
