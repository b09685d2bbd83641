import StyleGuide.Markdown.Line

/-!
# HTML blocks

A block of HTML starts at a line whose first character is `<`. Some blocks go on to a line that
holds a certain text (`endText?`), the others to the next blank line (`startsHtml`).
-/

namespace StyleGuide.Markdown

/-- Whether a text starts with certain characters. -/
def startsWith (pattern : String) (cs : List Char) : Bool := pattern.toList.isPrefixOf cs

/-- Whether certain characters occur in a text next to each other. -/
def holds (pattern : List Char) : List Char → Bool
  | [] => pattern.isEmpty
  | c :: cs => pattern.isPrefixOf (c :: cs) || holds pattern cs

/-- The text that ends a block of HTML, given the text behind its `<`. Such blocks are elements
whose text is no markup, comments, instructions, character data and declarations. -/
def endText? (cs : List Char) : Option (List Char) :=
  let element := ["pre", "style", "script", "textarea"].find? fun tag =>
    (cs.take tag.length).map Char.toLower == tag.toList &&
      match cs.drop tag.length with
      | [] => true
      | c :: _ => isMarkdownBlank c || c == '>'
  match element with
  | some tag => some (("</" ++ tag ++ ">").toList)
  | none =>
    if startsWith "!--" cs then some ['-', '-', '>']
    else if startsWith "?" cs then some ['?', '>']
    else if startsWith "![CDATA[" cs then some [']', ']', '>']
    else
      match cs with
      | '!' :: c :: _ => if c.isAlpha then some ['>'] else none
      | _ => none

/-- The elements whose tags start a block of HTML. -/
def blockTags : List String := [
  "address", "article", "aside", "base", "basefont", "blockquote", "body", "caption", "center",
  "col", "colgroup", "dd", "details", "dialog", "dir", "div", "dl", "dt", "fieldset", "figcaption",
  "figure", "footer", "form", "frame", "frameset", "h1", "h2", "h3", "h4", "h5", "h6", "head",
  "header", "hr", "html", "iframe", "legend", "li", "link", "main", "menu", "menuitem", "nav",
  "noframes", "ol", "optgroup", "option", "p", "param", "search", "section", "summary", "table",
  "tbody", "td", "tfoot", "th", "thead", "title", "tr", "track", "ul"]

/-- Whether the tag of a block element starts behind a `<`. -/
def startsBlockTag (cs : List Char) : Bool :=
  let cs := match cs with
    | '/' :: rest => rest
    | _ => cs
  let name := cs.takeWhile Char.isAlphanum
  blockTags.contains (String.ofList (name.map Char.toLower)) &&
    match cs.drop name.length with
    | [] => true
    | '/' :: '>' :: _ => true
    | c :: _ => isSpace c || endsLine c || c == '>'

/-! ## Tags that have a line to themselves -/

/-- The text behind the value of an attribute. -/
def attributeValue? : List Char → Option (List Char)
  | [] => none
  | c :: rest =>
    if c = '"' ∨ c = '\'' then
      match rest.dropWhile (fun d => d != c && !endsLine d) with
      | [] => none
      | d :: rest => if d = c then some rest else none
    else if " =><\x60\n\r".toList.contains c then none
    else some ((c :: rest).dropWhile fun d => !" =><\x60'\"\n\r".toList.contains d)

/-- The text behind an attribute, which is a name or a name with a value. -/
def attribute? (cs : List Char) : Option (List Char) :=
  match cs with
  | [] => none
  | c :: rest =>
    if c.isAlpha ∨ c = '_' ∨ c = ':' then
      let rest := rest.dropWhile fun d => d.isAlphanum || "_.:-".toList.contains d
      match rest.dropWhile isInlineBlank with
      | '=' :: value => attributeValue? (value.dropWhile isInlineBlank)
      | '\n' :: _ => none
      | '\r' :: _ => none
      | _ => some rest
    else none

/-- The text behind attributes that each have blanks in front, up to the end of the tag. The fuel
counts the attributes. -/
def attributes? : Nat → List Char → Option (List Char)
  | 0, _ => none
  | fuel + 1, cs =>
    let inner := cs.dropWhile isInlineBlank
    match inner with
    | [] => none
    | c :: _ =>
      if c = '/' ∨ c = '>' then some inner
      else if inner.length = cs.length then none
      else (attribute? inner).bind (attributes? fuel)

/-- Whether a line holds a complete tag and nothing else, given the text behind its `<`. -/
def isLoneTag (cs : List Char) : Bool :=
  let closing := startsWith "/" cs
  match if closing then cs.drop 1 else cs with
  | [] => false
  | c :: rest =>
    if c.isAlpha then
      let rest := rest.dropWhile fun d => d.isAlphanum || d == '-'
      let inner? := if closing then some rest else attributes? (rest.length + 1) rest
      match inner? with
      | none => false
      | some inner =>
        let inner := inner.dropWhile isInlineBlank
        let inner := if !closing && startsWith "/" inner then inner.drop 1 else inner
        match inner with
        | '>' :: rest => (blankLine? rest).isSome
        | _ => false
    else false

/-- Whether a block of HTML starts here that goes on to the next blank line. -/
def startsHtml (cs : List Char) : Bool :=
  match cs with
  | '<' :: rest => startsBlockTag rest || isLoneTag rest
  | _ => false

/-- Whether a block of HTML starts here that may interrupt a paragraph. -/
def startsFirmHtml (cs : List Char) : Bool :=
  match cs with
  | '<' :: rest => (endText? rest).isSome || startsBlockTag rest
  | _ => false

end StyleGuide.Markdown
