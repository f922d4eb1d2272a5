import DartModels.Query.Term
import DartModels.Query.Token

/-!
# The grammar of queries

A row of tokens read into a term.

An atom is a literal, a variable, a call, a bracketed term, a conditional or a
reduction, with the steps behind it. A term is a row of atoms with links
between them, and how the row groups is left to `Term.assemble`. Inside an
object a comma ends the value of a member, so there commas are not links.

A question mark makes the step before it lenient. Directly behind an atom that
is not a step it makes the whole atom pass over its faults.

The functions below call one another, and of any four calls in a row one takes
a token. Four times the number of tokens, and a few for the end of the text,
therefore bound the depth, and `Term.parse?` supplies that bound.

## Main definitions

* `Grammar.term`, `Grammar.atom`, `Grammar.route`: The parts of the grammar.
* `Term.parse?`: The term that a text spells.
-/

namespace DartModels

namespace Query

namespace Grammar

/-- Words with a place in the grammar, which name no function. -/
def keywords : List String :=
  ["include", "import", "def", "as", "and", "or", "if", "then", "elif", "else", "end", "try",
    "catch", "label", "reduce", "foreach", "break"]

/-- The operator of a symbol. -/
def operator? : String → Option Operator
  | "==" => some .equal
  | "!=" => some .unequal
  | "<" => some .less
  | "<=" => some .lessOrEqual
  | ">" => some .greater
  | ">=" => some .greaterOrEqual
  | "+" => some .add
  | "-" => some .subtract
  | "*" => some .multiply
  | "/" => some .divide
  | "%" => some .remainder
  | _ => none

/-- The link at the head of the tokens. -/
def link? (comma : Bool) : List Token → Option (Link × List Token)
  | .symbol "|" :: rest => some (.pipe, rest)
  | .symbol "," :: rest => if comma then some (.comma, rest) else none
  | .symbol "//" :: rest => some (.fallback, rest)
  | .symbol s :: rest => (operator? s).map fun o => (.operator o, rest)
  | .word "or" :: rest => some (.either, rest)
  | .word "and" :: rest => some (.each, rest)
  | .word "as" :: .variable name :: .symbol "|" :: rest => some (.bind name, rest)
  | _ => none

/-- Take question marks. The first component tells whether there were any. -/
def question : List Token → Bool × List Token
  | .symbol "?" :: rest => (true, (question rest).2)
  | rest => (false, rest)

/-- Take one given token. -/
def expect (t : Token) : List Token → Option (List Token)
  | u :: rest => if u = t then some rest else none
  | [] => none

/-- A term behind question marks that may follow it. -/
def attempted (t : Term) (tokens : List Token) : Term × List Token :=
  match question tokens with
  | (true, rest) => (.attempt t, rest)
  | (false, rest) => (t, rest)

/-- A term with the steps behind it. -/
def pathOf (t : Term) (route : Route) : Term :=
  match route with
  | .done => t
  | r => .path t r

/-- Members as one object: later ones overwrite. -/
def objectOf : List (Term × Term) → Term
  | [] => .emptyObject
  | (k, v) :: rest =>
      rest.foldl (fun acc m => .compute .add acc (.member m.1 m.2)) (.member k v)

/-- The step to the part with a given name. -/
def fieldOf (name : String) : Term :=
  .path .identity (.part (.string name) false .done)

mutual

/-- A term: atoms with links between them. -/
def term : Nat → Bool → List Token → Option (Term × List Token)
  | 0, _, _ => none
  | fuel + 1, comma, tokens => do
      let (first, tokens) ← atom fuel tokens
      let (row, tokens) ← links fuel comma tokens
      return (Term.assemble Level.all first row, tokens)

/-- The links and atoms behind an atom. -/
def links : Nat → Bool → List Token → Option (List (Link × Term) × List Token)
  | 0, _, _ => none
  | fuel + 1, comma, tokens =>
      match link? comma tokens with
      | none => some ([], tokens)
      | some (link, tokens) => do
          let (t, tokens) ← atom fuel tokens
          let (row, tokens) ← links fuel comma tokens
          return ((link, t) :: row, tokens)

/-- An atom with the steps behind it. -/
def atom : Nat → List Token → Option (Term × List Token)
  | 0, _ => none
  | fuel + 1, tokens =>
      match tokens with
      | .field name :: rest => do
          let (lenient, rest) := question rest
          let (route, rest) ← route fuel rest
          return (.path .identity (.part (.string name) lenient route), rest)
      | .symbol "." :: .string name :: rest => do
          let (lenient, rest) := question rest
          let (route, rest) ← route fuel rest
          return (.path .identity (.part (.string name) lenient route), rest)
      | _ => do
          let (t, rest) ← core fuel tokens
          -- Behind the atom itself a question mark is about the whole of it.
          let (t, rest) := attempted t rest
          let (route, rest) ← route fuel rest
          return (pathOf t route, rest)

/-- An atom without steps. -/
def core : Nat → List Token → Option (Term × List Token)
  | 0, _ => none
  | fuel + 1, tokens =>
      match tokens with
      | .symbol "." :: rest => some (.identity, rest)
      | .symbol ".." :: rest => some (.everything, rest)
      | .symbol "-" :: rest => do
          let (t, rest) ← atom fuel rest
          return (.negate t, rest)
      | .number digits :: rest => some (.number digits, rest)
      | .string value :: rest => some (.string value, rest)
      | .variable name :: rest => some (.variable name, rest)
      | .word "if" :: rest => branches fuel rest
      | .word "reduce" :: rest => do
          let (source, rest) ← atom fuel rest
          match rest with
          | .word "as" :: .variable name :: .opening .round :: rest => do
              let (start, rest) ← term fuel true rest
              let rest ← expect (.symbol ";") rest
              let (update, rest) ← term fuel true rest
              let rest ← expect (.closing .round) rest
              return (.reduce source name start update, rest)
          | _ => none
      | .word name :: rest =>
          if keywords.contains name then none
          else
            match rest with
            | .opening .round :: rest => do
                let (arguments, rest) ← arguments fuel rest
                return (.call name arguments, rest)
            | rest => some (.call name [], rest)
      | .opening .round :: rest => do
          let (t, rest) ← term fuel true rest
          let rest ← expect (.closing .round) rest
          return (t, rest)
      | .opening .square :: .closing .square :: rest => some (.emptyArray, rest)
      | .opening .square :: rest => do
          let (t, rest) ← term fuel true rest
          let rest ← expect (.closing .square) rest
          return (.collect t, rest)
      | .opening .curly :: .closing .curly :: rest => some (.emptyObject, rest)
      | .opening .curly :: rest => do
          let (entries, rest) ← members fuel rest
          return (objectOf entries, rest)
      | _ => none

/-- A condition and what follows from it, up to the end of the conditional. A
    conditional without a last branch leaves the value as it is. -/
def branches : Nat → List Token → Option (Term × List Token)
  | 0, _ => none
  | fuel + 1, tokens => do
      let (condition, rest) ← term fuel true tokens
      let rest ← expect (.word "then") rest
      let (consequent, rest) ← term fuel true rest
      match rest with
      | .word "elif" :: rest => do
          let (alternative, rest) ← branches fuel rest
          return (.choose condition consequent alternative, rest)
      | .word "else" :: rest => do
          let (alternative, rest) ← term fuel true rest
          let rest ← expect (.word "end") rest
          return (.choose condition consequent alternative, rest)
      | .word "end" :: rest => some (.choose condition consequent .identity, rest)
      | _ => none

/-- The arguments of a call, with the closing bracket. -/
def arguments : Nat → List Token → Option (List Term × List Token)
  | 0, _ => none
  | fuel + 1, tokens => do
      let (t, rest) ← term fuel true tokens
      match rest with
      | .symbol ";" :: rest => do
          let (ts, rest) ← arguments fuel rest
          return (t :: ts, rest)
      | .closing .round :: rest => some ([t], rest)
      | _ => none

/-- The members of an object, with the closing bracket. -/
def members : Nat → List Token → Option (List (Term × Term) × List Token)
  | 0, _ => none
  | fuel + 1, tokens => do
      let (entry, rest) ← entry fuel tokens
      match rest with
      | .symbol "," :: rest => do
          let (entries, rest) ← members fuel rest
          return (entry :: entries, rest)
      | .closing .curly :: rest => some ([entry], rest)
      | _ => none

/-- One member of an object. A name alone stands for the member of the value
    with that name, and a variable alone for a member called like it. -/
def entry : Nat → List Token → Option ((Term × Term) × List Token)
  | 0, _ => none
  | fuel + 1, tokens =>
      match tokens with
      | .opening .round :: rest => do
          let (key, rest) ← term fuel true rest
          let rest ← expect (.closing .round) rest
          let rest ← expect (.symbol ":") rest
          let (value, rest) ← term fuel false rest
          return ((key, value), rest)
      | .word name :: .symbol ":" :: rest => do
          let (value, rest) ← term fuel false rest
          return ((.string name, value), rest)
      | .string name :: .symbol ":" :: rest => do
          let (value, rest) ← term fuel false rest
          return ((.string name, value), rest)
      | .variable name :: .symbol ":" :: rest => do
          let (value, rest) ← term fuel false rest
          return ((.variable name, value), rest)
      | .word name :: rest => some ((.string name, fieldOf name), rest)
      | .string name :: rest => some ((.string name, fieldOf name), rest)
      | .variable name :: rest => some ((.string name, .variable name), rest)
      | _ => none

/-- The steps behind an atom. -/
def route : Nat → List Token → Option (Route × List Token)
  | 0, _ => none
  | fuel + 1, tokens =>
      match tokens with
      | .field name :: rest => do
          let (lenient, rest) := question rest
          let (r, rest) ← route fuel rest
          return (.part (.string name) lenient r, rest)
      | .symbol "." :: .string name :: rest => do
          let (lenient, rest) := question rest
          let (r, rest) ← route fuel rest
          return (.part (.string name) lenient r, rest)
      | .symbol "." :: .opening .square :: rest => bracketed fuel rest
      | .opening .square :: rest => bracketed fuel rest
      | _ => some (.done, tokens)

/-- A step in brackets, behind the opening one, and the steps behind it. -/
def bracketed : Nat → List Token → Option (Route × List Token)
  | 0, _ => none
  | fuel + 1, tokens =>
      match tokens with
      | .closing .square :: rest => do
          let (lenient, rest) := question rest
          let (r, rest) ← route fuel rest
          return (.parts lenient r, rest)
      | .symbol ":" :: rest => do
          let (high, rest) ← term fuel true rest
          let rest ← expect (.closing .square) rest
          let (lenient, rest) := question rest
          let (r, rest) ← route fuel rest
          return (.upTo high lenient r, rest)
      | _ => do
          let (low, rest) ← term fuel true tokens
          match rest with
          | .symbol ":" :: .closing .square :: rest => do
              let (lenient, rest) := question rest
              let (r, rest) ← route fuel rest
              return (.from low lenient r, rest)
          | .symbol ":" :: rest => do
              let (high, rest) ← term fuel true rest
              let rest ← expect (.closing .square) rest
              let (lenient, rest) := question rest
              let (r, rest) ← route fuel rest
              return (.between low high lenient r, rest)
          | .closing .square :: rest => do
              let (lenient, rest) := question rest
              let (r, rest) ← route fuel rest
              return (.part low lenient r, rest)
          | _ => none

end

end Grammar

/-- The term that a text spells: `none` if it spells none. -/
def Term.parse? (text : String) : Option Term := do
  let tokens ← Token.scan? text
  let (t, rest) ← Grammar.term (4 * tokens.length + 8) true tokens
  if rest.isEmpty then some t else none

end Query

end DartModels
