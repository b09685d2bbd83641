import StyleGuide.Text.Blank

/-!
# Literals

Which texts are literals: a text between quotes of one kind, a truth value, or a number. A number
has digits, at most one point among or beside them, and maybe an exponent; the words for infinity
and for what is not a number also count, in any case. A sign may stand first.
-/

namespace StyleGuide

/-- The rest behind a sign. -/
def dropSign (cs : List Char) : List Char :=
  match cs with
  | '+' :: rest => rest
  | '-' :: rest => rest
  | _ => cs

/-- Whether nothing is left, or an exponent. -/
def isExponentOrEnd (cs : List Char) : Bool :=
  match cs with
  | [] => true
  | c :: rest =>
    (c = 'e' || c = 'E') &&
      (dropSign rest ≠ [] && (dropSign rest).all Char.isDigit)

/-- Whether a text is a number. -/
def isNumber (cs : List Char) : Bool :=
  let unsigned := dropSign cs
  let word := String.ofList (unsigned.map Char.toLower)
  let whole := unsigned.takeWhile Char.isDigit
  let rest := unsigned.dropWhile Char.isDigit
  word == "inf" || word == "infinity" || word == "nan" ||
    match rest with
    | '.' :: frac =>
      (whole ≠ [] || (frac.takeWhile Char.isDigit) ≠ []) &&
        isExponentOrEnd (frac.dropWhile Char.isDigit)
    | _ => whole ≠ [] && isExponentOrEnd rest

/-- Whether a text stands between two quotes of the same kind. -/
def isQuoted (cs : List Char) : Bool :=
  match cs with
  | q :: rest => (q = '\'' || q = '"' || q = '\x60') && rest.getLast? == some q
  | [] => false

/-- Whether a text is a literal; blanks around it do not count. -/
def isLiteral (cs : List Char) : Bool :=
  let t := trim cs
  isQuoted t || t == "true".toList || t == "false".toList || isNumber t

end StyleGuide
