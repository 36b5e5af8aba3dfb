import ReactiveView.Markup.Node
/-!
# Writing markup

A text node is written with `&`, `<` and `>` escaped; an attribute value with `&` and `"`
escaped, and an attribute with an empty value as its bare name. A void element is written as
its start tag alone; any other element as start tag, children and end tag.
-/
namespace ReactiveView.Markup

/-- Text content with `&`, `<` and `>` escaped. -/
def escapeText (s : String) : String :=
  String.join (s.toList.map fun c =>
    match c with
    | '&' => "&amp;"
    | '<' => "&lt;"
    | '>' => "&gt;"
    | c => String.singleton c)

/-- An attribute value with `&` and `"` escaped. -/
def escapeAttribute (s : String) : String :=
  String.join (s.toList.map fun c =>
    match c with
    | '&' => "&amp;"
    | '"' => "&quot;"
    | c => String.singleton c)

/-- The attributes of a start tag, each after a space. -/
def renderAttributes : List Attribute → String
  | [] => ""
  | a :: rest =>
    (if a.value.isEmpty then " " ++ a.name else " " ++ a.name ++ "=\"" ++ escapeAttribute a.value ++ "\"")
      ++ renderAttributes rest

mutual
/-- The markup text of a node. -/
def Node.render : Node → String
  | .text s => escapeText s
  | .element tag attrs children =>
    "<" ++ tag ++ renderAttributes attrs ++ ">" ++
      (if isVoid tag then "" else Node.renderList children ++ "</" ++ tag ++ ">")

/-- The markup text of a list of nodes, one after another. -/
def Node.renderList : List Node → String
  | [] => ""
  | n :: rest => n.render ++ Node.renderList rest
end

/-- The markup text of a document. -/
def Document.render (d : Document) : String := Node.renderList d.roots

end ReactiveView.Markup
