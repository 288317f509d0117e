import Ipld.Parser.Declaration

/-!
# What token lists spell

The grammar of the schema language on tokens, as relations between a token list and what it spells:

* `Schema` = `Declaration`*, `Declaration` = `type` Name `Definition`;
* `Definition` = scalar | `struct` { `Field`* } | `enum` { Members } | [`map`] { `String` : Value }
  [Annotated] | `list` Value [Annotated] | [ Value ] [Annotated] | (`link` | `&`) Name | Name;
* `Field` = Name [`optional`] Value, Value = [`nullable`] `Node`;
* `Node` = scalar | [ Value ] | { `String` : Value } | `&` Name | Name;
* Members = [Name (, Name)* [,]], Annotated = `representation` `advanced` `RMT`.

Each production is one constructor.  A keyword or symbol is a token of that kind with that value; a
name is a token of the kind identifier, whatever its value.  Lines play no part.
-/

namespace Ipld

namespace Token

/-- The token is this keyword. -/
abbrev IsKeyword (t : Token) (word : String) : Prop :=
  t.is .keyword (some word) = true

/-- The token is this symbol. -/
abbrev IsSymbol (t : Token) (symbol : String) : Prop :=
  t.is .symbol (some symbol) = true

/-- The token is a name. -/
abbrev IsName (t : Token) : Prop :=
  t.is .identifier none = true

end Token

/-- A keyword that may stand there or not, and whether it does. -/
inductive SpellsModifier (word : String) : List Token → Bool → Prop
  | absent : SpellsModifier word [] false
  | present {t : Token} (h : t.IsKeyword word) : SpellsModifier word [t] true

mutual

/-- Nodes. -/
inductive SpellsNode : List Token → Node → Prop
  | scalar {t : Token} {kind : Scalar} (h : t.IsKeyword kind.keyword) :
    SpellsNode [t] (.scalar kind)
  | bracketed {ts : List Token} {value : Node} (h : SpellsBracketed ts value) : SpellsNode ts value
  | braced {ts : List Token} {value : Node} (h : SpellsBraced ts value) : SpellsNode ts value
  | link {ampersand name : Token} (hlink : ampersand.IsSymbol "&") (hname : name.IsName) :
    SpellsNode [ampersand, name] (.link name.value)
  | ref {name : Token} (hname : name.IsName) : SpellsNode [name] (.ref name.value)

/-- Lists in brackets. -/
inductive SpellsBracketed : List Token → Node → Prop
  | intro {lsqb rsqb : Token} {ms vs : List Token} {nullable : Bool} {value : Node}
    (hopen : lsqb.IsSymbol "[") (hnullable : SpellsModifier "nullable" ms nullable)
    (hvalue : SpellsNode vs value) (hclose : rsqb.IsSymbol "]") :
    SpellsBracketed (lsqb :: (ms ++ (vs ++ [rsqb]))) (.list value nullable)

/-- Maps in braces. -/
inductive SpellsBraced : List Token → Node → Prop
  | intro {lbrace key colon rbrace : Token} {ms vs : List Token} {nullable : Bool} {value : Node}
    (hopen : lbrace.IsSymbol "\x7b") (hkey : key.IsKeyword "String") (hcolon : colon.IsSymbol ":")
    (hnullable : SpellsModifier "nullable" ms nullable) (hvalue : SpellsNode vs value)
    (hclose : rbrace.IsSymbol "\x7d") :
    SpellsBraced (lbrace :: key :: colon :: (ms ++ (vs ++ [rbrace]))) (.map value nullable)

end

/-- The body of a list after its keyword. -/
inductive SpellsListBody : List Token → Node → Prop
  | intro {ms vs : List Token} {nullable : Bool} {value : Node}
    (hnullable : SpellsModifier "nullable" ms nullable) (hvalue : SpellsNode vs value) :
    SpellsListBody (ms ++ vs) (.list value nullable)

/-- One field of a struct. -/
inductive SpellsField : List Token → String × Field → Prop
  | intro {name : Token} {os ms vs : List Token} {optional nullable : Bool} {value : Node}
    (hname : name.IsName) (hoptional : SpellsModifier "optional" os optional)
    (hnullable : SpellsModifier "nullable" ms nullable) (hvalue : SpellsNode vs value) :
    SpellsField (name :: (os ++ (ms ++ vs))) (name.value, ⟨value, optional, nullable⟩)

/-- The fields of a struct, which nothing separates. -/
inductive SpellsFields : List Token → List (String × Field) → Prop
  | nil : SpellsFields [] []
  | cons {ts us : List Token} {entry : String × Field} {entries : List (String × Field)}
    (hfield : SpellsField ts entry) (hrest : SpellsFields us entries) :
    SpellsFields (ts ++ us) (entry :: entries)

/-- Names with commas between them. -/
inductive SpellsNames : List Token → List String → Prop
  | last {name : Token} (hname : name.IsName) : SpellsNames [name] [name.value]
  | more {name comma : Token} {ts : List Token} {names : List String} (hname : name.IsName)
    (hcomma : comma.IsSymbol ",") (hrest : SpellsNames ts names) :
    SpellsNames (name :: comma :: ts) (name.value :: names)

/-- The members of an enum: none, or names with commas between them and perhaps one after. -/
inductive SpellsMembers : List Token → List String → Prop
  | none : SpellsMembers [] []
  | names {ts : List Token} {names : List String} (h : SpellsNames ts names) :
    SpellsMembers ts names
  | trailing {ts : List Token} {comma : Token} {names : List String} (h : SpellsNames ts names)
    (hcomma : comma.IsSymbol ",") : SpellsMembers (ts ++ [comma]) names

/-- The annotation of a list or map, and whether it is there. -/
inductive SpellsAdvanced : List Token → Bool → Prop
  | absent : SpellsAdvanced [] false
  | present {representation advanced rmt : Token}
    (hrepresentation : representation.IsKeyword "representation")
    (hadvanced : advanced.IsKeyword "advanced") (hrmt : rmt.IsKeyword "RMT") :
    SpellsAdvanced [representation, advanced, rmt] true

/-- What follows the name of a type. -/
inductive SpellsDefinition : List Token → Definition → Prop
  | scalar {t : Token} {kind : Scalar} (h : t.IsKeyword kind.keyword) :
    SpellsDefinition [t] (.scalar kind)
  | struct {keyword lbrace rbrace : Token} {fs : List Token} {entries : List (String × Field)}
    (hkeyword : keyword.IsKeyword "struct") (hopen : lbrace.IsSymbol "\x7b")
    (hfields : SpellsFields fs entries) (hclose : rbrace.IsSymbol "\x7d") :
    SpellsDefinition (keyword :: lbrace :: (fs ++ [rbrace])) (.struct (.ofList entries))
  | enum {keyword lbrace rbrace : Token} {ms : List Token} {names : List String}
    (hkeyword : keyword.IsKeyword "enum") (hopen : lbrace.IsSymbol "\x7b")
    (hmembers : SpellsMembers ms names) (hclose : rbrace.IsSymbol "\x7d") :
    SpellsDefinition (keyword :: lbrace :: (ms ++ [rbrace])) (.enum names)
  | map {ks ts as : List Token} {keyword advanced : Bool} {value : Node}
    (hkeyword : SpellsModifier "map" ks keyword) (hbody : SpellsBraced ts value)
    (hadvanced : SpellsAdvanced as advanced) :
    SpellsDefinition (ks ++ (ts ++ as)) (.node value advanced)
  | list {keyword : Token} {ts as : List Token} {advanced : Bool} {value : Node}
    (hkeyword : keyword.IsKeyword "list") (hbody : SpellsListBody ts value)
    (hadvanced : SpellsAdvanced as advanced) :
    SpellsDefinition (keyword :: (ts ++ as)) (.node value advanced)
  | bracketed {ts as : List Token} {advanced : Bool} {value : Node}
    (hbody : SpellsBracketed ts value) (hadvanced : SpellsAdvanced as advanced) :
    SpellsDefinition (ts ++ as) (.node value advanced)
  | link {opener name : Token} (hlink : opener.IsKeyword "link" ∨ opener.IsSymbol "&")
    (hname : name.IsName) : SpellsDefinition [opener, name] (.node (.link name.value) false)
  | ref {name : Token} (hname : name.IsName) :
    SpellsDefinition [name] (.node (.ref name.value) false)

/-- One declaration. -/
inductive SpellsDeclaration : List Token → String × Definition → Prop
  | intro {keyword name : Token} {ts : List Token} {value : Definition}
    (hkeyword : keyword.IsKeyword "type") (hname : name.IsName)
    (hvalue : SpellsDefinition ts value) :
    SpellsDeclaration (keyword :: name :: ts) (name.value, value)

/-- Any number of declarations. -/
inductive SpellsSchema : List Token → List (String × Definition) → Prop
  | nil : SpellsSchema [] []
  | cons {ts us : List Token} {d : String × Definition} {ds : List (String × Definition)}
    (hdeclaration : SpellsDeclaration ts d) (hrest : SpellsSchema us ds) :
    SpellsSchema (ts ++ us) (d :: ds)

end Ipld
