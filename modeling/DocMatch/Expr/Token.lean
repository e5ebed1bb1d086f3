import DocMatch.Text.Blank
import DocMatch.Text.Letter
import DocMatch.Number.Numeral

/-!
Tokens of expressions. A cursor stands somewhere in a text and hands out one token after the other;
blanks between tokens are skipped. Every text has tokens: a character that belongs to none becomes
an illegal token of its own, and a string that is never closed reaches to the end.

    ifaces . 0 . name == "eth1" | ifaces
    └────┘ ┘ ┘ ┘ └──┘ └┘ └────┘ ┘ └────┘      columns count characters from 1
-/

namespace DocMatch

namespace Token

/-- What a token is. -/
inductive Kind
  | eof | illegal | identifier | integer | string | dot | pipe | assign | equal | merge
  deriving DecidableEq

namespace Kind

/-- The name of a kind; for a mark it is the mark itself. -/
def name : Kind → String
  | eof => "EOF"
  | illegal => "ILLEGAL"
  | identifier => "IDENT"
  | integer => "INT"
  | string => "STRING"
  | dot => "."
  | pipe => "|"
  | assign => "="
  | equal => "=="
  | merge => "+"

/-- Whether a token of this kind separates the two arguments of a stage. -/
def isOperator : Kind → Bool
  | assign | equal | merge => true
  | _ => false

end Kind

end Token

/-- A token: what it is, the column of its first character, and its text. The text of a string is
what stands between the quotes. -/
structure Token where
  kind : Token.Kind
  column : Nat
  text : String
  deriving DecidableEq

/-- Whether a character can stand in an identifier. -/
def isNameChar (c : Char) : Bool := isLetter c || c == '-'

/-- A place in a text: what is left, and how many characters lie before it. -/
structure Cursor where
  rest : List Char
  consumed : Nat
  deriving DecidableEq

namespace Cursor

/-- The beginning of a text. -/
def start (text : List Char) : Cursor := ⟨text, 0⟩

/-- Moves past the longest run of characters of a class. -/
def skip (p : Char → Bool) (c : Cursor) : Cursor :=
  ⟨c.rest.dropWhile p, c.consumed + (c.rest.takeWhile p).length⟩

/-- A token that is the longest run of characters of a class. -/
def run (kind : Token.Kind) (p : Char → Bool) (c : Cursor) : Token × Cursor :=
  (⟨kind, c.consumed + 1, String.ofList (c.rest.takeWhile p)⟩, c.skip p)

/-- A token that is the mark of its kind, with what is left after it. -/
def mark (kind : Token.Kind) (c : Cursor) (rest : List Char) : Token × Cursor :=
  (⟨kind, c.consumed + 1, kind.name⟩, ⟨rest, c.consumed + kind.name.length⟩)

/-- A string whose opening quote has been read: it reaches to the next quote, which is dropped, or
to the end of the text. -/
def quoted (c : Cursor) (body : List Char) : Token × Cursor :=
  let inner := body.takeWhile (· != '"')
  let token : Token := ⟨.string, c.consumed + 1, String.ofList inner⟩
  match body.dropWhile (· != '"') with
  | [] => (token, ⟨[], c.consumed + 1 + inner.length⟩)
  | _ :: rest => (token, ⟨rest, c.consumed + 2 + inner.length⟩)

/-- The token that starts here; no blanks are skipped. -/
def read (c : Cursor) : Token × Cursor :=
  match c.rest with
  | [] => (⟨.eof, c.consumed, ""⟩, c)
  | '.' :: rest => c.mark .dot rest
  | '|' :: rest => c.mark .pipe rest
  | '+' :: rest => c.mark .merge rest
  | '=' :: '=' :: rest => c.mark .equal rest
  | '=' :: rest => c.mark .assign rest
  | '"' :: rest => c.quoted rest
  | x :: rest =>
    if isDigit x then c.run .integer isDigit
    else if isNameChar x then c.run .identifier isNameChar
    else (⟨.illegal, c.consumed + 1, String.ofList [x]⟩, ⟨rest, c.consumed + 1⟩)

/-- The next token. At the end of the text there is the end token, again and again. -/
def next (c : Cursor) : Token × Cursor := (c.skip isBlank).read

theorem length_dropWhile_le (p : Char → Bool) (cs : List Char) :
    (cs.dropWhile p).length ≤ cs.length :=
  (List.dropWhile_sublist p).length_le

/-- Skipping leaves no more than there was. -/
theorem skip_length_le (p : Char → Bool) (c : Cursor) : (c.skip p).rest.length ≤ c.rest.length :=
  length_dropWhile_le p c.rest

/-- A run that has its first character takes it away. -/
theorem run_length_lt {kind : Token.Kind} {p : Char → Bool} {c : Cursor} {x : Char}
    {rest : List Char} (h : c.rest = x :: rest) (hx : p x = true) :
    (c.run kind p).2.rest.length < c.rest.length := by
  simp only [run, skip, h, List.dropWhile_cons, hx, if_true, List.length_cons]
  exact Nat.lt_succ_of_le (length_dropWhile_le p rest)

/-- A string takes its opening quote away, whether or not it is closed. -/
theorem quoted_length_le (c : Cursor) (body : List Char) :
    (c.quoted body).2.rest.length ≤ body.length := by
  have h := length_dropWhile_le (· != '"') body
  simp only [quoted]
  split
  · simp
  · rename_i heq
    rw [heq] at h
    simp only [List.length_cons] at h
    simp only
    omega

/-- Every token but the end token takes characters away. -/
theorem read_length_lt {c : Cursor} (h : (c.read).1.kind ≠ .eof) :
    (c.read).2.rest.length < c.rest.length := by
  unfold read at h ⊢
  split at h
  · exact absurd rfl h
  case h_7 rest hrest =>
    have := quoted_length_le c rest
    simp only [hrest, List.length_cons] at this ⊢
    omega
  case h_8 x rest _ _ _ _ _ _ hrest =>
    split
    · rename_i hx
      exact run_length_lt hrest hx
    · split
      · rename_i hx
        exact run_length_lt hrest hx
      · simp [hrest]
  all_goals rename_i hrest; simp only [mark, hrest, List.length_cons]; omega

theorem next_length_lt {c : Cursor} (h : (c.next).1.kind ≠ .eof) :
    (c.next).2.rest.length < c.rest.length :=
  Nat.lt_of_lt_of_le (read_length_lt h) (skip_length_le isBlank c)

/-- The tokens from here up to the end of the text, the end token left out. -/
def tokens (c : Cursor) : List Token :=
  if _h : (c.next).1.kind = .eof then [] else (c.next).1 :: (c.next).2.tokens
termination_by c.rest.length
decreasing_by exact next_length_lt _h

/-- The end token of the text. -/
def endToken (c : Cursor) : Token := ⟨.eof, c.consumed + c.rest.length, ""⟩

end Cursor

namespace Token

/-- The tokens of a text, the end token left out. -/
def tokens (text : String) : List Token := (Cursor.start text.toList).tokens

/-- The end token of a text; its column is the number of characters. -/
def ending (text : String) : Token := (Cursor.start text.toList).endToken

example : (tokens "a-b==\"x y\" |0").map (fun t => (t.kind, t.column, t.text)) =
    [(.identifier, 1, "a-b"), (.equal, 4, "=="), (.string, 6, "x y"), (.pipe, 12, "|"),
     (.integer, 13, "0")] := by
  decide +kernel

end Token

end DocMatch
