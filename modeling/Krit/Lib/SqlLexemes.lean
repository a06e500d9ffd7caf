import Mathlib.Tactic

/-!
# Lexical elements of SQL

A text of SQL is cut into lexical elements: white space, comments, quoted and bracketed
tokens, separators of statements, words, and other symbols.  A quote, a bracket or a block
comment that is never closed runs to the end of the text.
-/

namespace Sql

/-- The five characters that are white space. -/
def isSpace (char : Char) : Bool :=
  char == ' ' || char == '\t' || char == '\n' || char == Char.ofNat 12 || char == '\r'

def isQuote (char : Char) : Bool := char == '\'' || char == '"' || char == Char.ofNat 96

/-- A character of an identifier, a keyword or a number. -/
def isWordChar (char : Char) : Bool :=
  char.isAlphanum || char == '_' || char == '$' || 128 ≤ char.toNat

inductive Lexeme where
  | space
  | lineComment
  | blockComment (closed : Bool)
  | quoted (closed : Bool)
  | bracketed (closed : Bool)
  | separator
  | word (text : List Char)
  | symbol (char : Char)
  deriving DecidableEq

namespace Lexeme

def closed : Lexeme → Bool
  | .blockComment closed | .quoted closed | .bracketed closed => closed
  | _ => true

/-- White space and comments are no tokens. -/
def isToken : Lexeme → Bool
  | .quoted _ | .bracketed _ | .word _ | .symbol _ => true
  | _ => false

def isSeparator : Lexeme → Bool
  | .separator => true
  | _ => false

end Lexeme

/-- What follows a line comment; the line feed belongs to the comment. -/
def afterLine : List Char → List Char
  | [] => []
  | char :: rest => if char = '\n' then rest else afterLine rest

/-- What follows a block comment, and whether it is closed. -/
def afterBlock : List Char → Bool × List Char
  | [] => (false, [])
  | char :: rest =>
      if char = '*' ∧ rest.head? = some '/' then (true, rest.tail) else afterBlock rest

/-- What follows a quoted token; a doubled quote belongs to it. -/
def afterQuote (quote : Char) : List Char → Bool × List Char
  | [] => (false, [])
  | [char] => (char == quote, [])
  | char :: next :: rest =>
      if char = quote then
        if next = quote then afterQuote quote rest else (true, next :: rest)
      else afterQuote quote (next :: rest)

def afterBracket : List Char → Bool × List Char
  | [] => (false, [])
  | char :: rest => if char = ']' then (true, rest) else afterBracket rest

/-- The first lexical element of a text, and what follows it. -/
def lexeme (char : Char) (rest : List Char) : Lexeme × List Char :=
  if isSpace char then (.space, rest)
  else if isQuote char then
    let found := afterQuote char rest
    (.quoted found.1, found.2)
  else if char = '[' then
    let found := afterBracket rest
    (.bracketed found.1, found.2)
  else if char = '-' ∧ rest.head? = some '-' then (.lineComment, afterLine rest.tail)
  else if char = '/' ∧ rest.head? = some '*' then
    let found := afterBlock rest.tail
    (.blockComment found.1, found.2)
  else if char = ';' then (.separator, rest)
  else if isWordChar char then
    (.word (char :: rest.takeWhile isWordChar), rest.dropWhile isWordChar)
  else (.symbol char, rest)

/-! ## What follows is a suffix -/

theorem afterLine_suffix (chars : List Char) : afterLine chars <:+ chars := by
  induction chars with
  | nil => exact List.suffix_refl _
  | cons char rest ih =>
    rw [afterLine]
    split
    · exact List.suffix_cons _ _
    · exact ih.trans (List.suffix_cons _ _)

theorem afterBlock_suffix (chars : List Char) : (afterBlock chars).2 <:+ chars := by
  induction chars with
  | nil => exact List.suffix_refl _
  | cons char rest ih =>
    rw [afterBlock]
    split
    · exact (List.tail_suffix rest).trans (List.suffix_cons _ _)
    · exact ih.trans (List.suffix_cons _ _)

theorem afterQuote_suffix (quote : Char) (chars : List Char) :
    (afterQuote quote chars).2 <:+ chars := by
  induction chars using afterQuote.induct quote with
  | case1 => exact List.suffix_refl _
  | case2 char => exact List.nil_suffix
  | case3 rest ih =>
    rw [afterQuote, if_pos rfl, if_pos rfl]
    exact ih.trans ((List.suffix_cons _ _).trans (List.suffix_cons _ _))
  | case4 next rest hnext =>
    rw [afterQuote, if_pos rfl, if_neg hnext]
    exact List.suffix_cons _ _
  | case5 char next rest hchar ih =>
    rw [afterQuote, if_neg hchar]
    exact ih.trans (List.suffix_cons _ _)

theorem afterBracket_suffix (chars : List Char) : (afterBracket chars).2 <:+ chars := by
  induction chars with
  | nil => exact List.suffix_refl _
  | cons char rest ih =>
    rw [afterBracket]
    split
    · exact List.suffix_cons _ _
    · exact ih.trans (List.suffix_cons _ _)

theorem lexeme_suffix (char : Char) (rest : List Char) : (lexeme char rest).2 <:+ rest := by
  unfold lexeme
  split_ifs
  · exact List.suffix_refl _
  · exact afterQuote_suffix char rest
  · exact afterBracket_suffix rest
  · exact (afterLine_suffix _).trans (List.tail_suffix rest)
  · exact (afterBlock_suffix _).trans (List.tail_suffix rest)
  · exact List.suffix_refl _
  · exact List.dropWhile_suffix _
  · exact List.suffix_refl _

/-- The lexical elements of a text, each with what follows it. -/
def lexemes : List Char → List (Lexeme × List Char)
  | [] => []
  | char :: rest =>
      let found := lexeme char rest
      found :: lexemes found.2
termination_by chars => chars.length
decreasing_by
  have hle := (lexeme_suffix char rest).length_le
  rw [List.length_cons]
  exact Nat.lt_succ_of_le hle

theorem lexemes_nil : lexemes [] = [] := by
  rw [lexemes]

theorem lexemes_cons (char : Char) (rest : List Char) :
    lexemes (char :: rest) = lexeme char rest :: lexemes (lexeme char rest).2 := by
  rw [lexemes]

/-- The lexical elements of a text, for an induction. -/
theorem lexemes_induction {motive : List Char → Prop} (hnil : motive [])
    (hcons : ∀ char rest, motive (lexeme char rest).2 → motive (char :: rest))
    (chars : List Char) : motive chars := by
  induction hlength : chars.length using Nat.strong_induction_on generalizing chars with
  | h length ih =>
    cases chars with
    | nil => exact hnil
    | cons char rest =>
      have hle := (lexeme_suffix char rest).length_le
      refine hcons char rest (ih _ ?_ _ rfl)
      rw [← hlength, List.length_cons]
      omega

/-! ## Searches

The end of an element is the end of a search for the character that closes it.
-/

theorem afterLine_eq (chars : List Char) :
    afterLine chars = (chars.dropWhile fun char => char != '\n').tail := by
  induction chars with
  | nil => rfl
  | cons char rest ih =>
    by_cases hend : char = '\n'
    · rw [afterLine, if_pos hend, List.dropWhile_cons, if_neg (by simp [hend]), List.tail_cons]
    · rw [afterLine, if_neg hend, List.dropWhile_cons, if_pos (by simpa using hend), ih]

theorem afterBracket_eq (chars : List Char) :
    afterBracket chars =
      (decide (']' ∈ chars), (chars.dropWhile fun char => char != ']').tail) := by
  induction chars with
  | nil => rfl
  | cons char rest ih =>
    by_cases hend : char = ']'
    · have hmem : ']' ∈ char :: rest := hend ▸ List.mem_cons_self
      rw [afterBracket, if_pos hend, List.dropWhile_cons, if_neg (by simp [hend]), List.tail_cons,
        decide_eq_true hmem]
    · have hmem : ']' ∈ char :: rest ↔ ']' ∈ rest := by
        rw [List.mem_cons, or_iff_right fun heq => hend heq.symm]
      rw [afterBracket, if_neg hend, List.dropWhile_cons, if_pos (by simpa using hend), ih,
        decide_eq_decide.mpr hmem]

/-- Characters before the first quote belong to the token. -/
theorem afterQuote_append {quote : Char} {before : List Char} (rest : List Char)
    (hbefore : quote ∉ before) : afterQuote quote (before ++ rest) = afterQuote quote rest := by
  induction before with
  | nil => rfl
  | cons char before ih =>
    have hchar : char ≠ quote := fun heq => hbefore (heq ▸ List.mem_cons_self)
    have hmore : quote ∉ before := fun hmem => hbefore (List.mem_cons_of_mem _ hmem)
    rw [← ih hmore, List.cons_append]
    cases hnext : before ++ rest with
    | nil => simp [afterQuote, hchar]
    | cons next more => rw [afterQuote, if_neg hchar]

theorem afterQuote_of_not_mem {quote : Char} {chars : List Char} (hmem : quote ∉ chars) :
    afterQuote quote chars = (false, []) := by
  have happend := afterQuote_append [] hmem
  rw [List.append_nil] at happend
  rw [happend, afterQuote]

theorem afterQuote_quote {quote : Char} {rest : List Char} :
    afterQuote quote (quote :: rest) =
      if rest.head? = some quote then afterQuote quote rest.tail else (true, rest) := by
  cases rest with
  | nil => simp [afterQuote]
  | cons next rest =>
    simp [afterQuote]

/-! ## Elements that are not closed -/

theorem afterBlock_of_open {chars : List Char} (hopen : (afterBlock chars).1 = false) :
    (afterBlock chars).2 = [] := by
  induction chars with
  | nil => rfl
  | cons char rest ih =>
    rw [afterBlock] at hopen ⊢
    split
    · rename_i hclose
      rw [if_pos hclose] at hopen
      cases hopen
    · rename_i hclose
      rw [if_neg hclose] at hopen
      exact ih hopen

theorem afterQuote_of_open {quote : Char} {chars : List Char}
    (hopen : (afterQuote quote chars).1 = false) : (afterQuote quote chars).2 = [] := by
  induction chars using afterQuote.induct quote with
  | case1 => rfl
  | case2 char => rfl
  | case3 rest ih =>
    rw [afterQuote, if_pos rfl, if_pos rfl] at hopen ⊢
    exact ih hopen
  | case4 next rest hnext =>
    rw [afterQuote, if_pos rfl, if_neg hnext] at hopen
    cases hopen
  | case5 char next rest hchar ih =>
    rw [afterQuote, if_neg hchar] at hopen ⊢
    exact ih hopen

theorem afterBracket_of_open {chars : List Char} (hopen : (afterBracket chars).1 = false) :
    (afterBracket chars).2 = [] := by
  induction chars with
  | nil => rfl
  | cons char rest ih =>
    rw [afterBracket] at hopen ⊢
    split
    · rename_i hclose
      rw [if_pos hclose] at hopen
      cases hopen
    · rename_i hclose
      rw [if_neg hclose] at hopen
      exact ih hopen

/-- An element that is not closed is the last one. -/
theorem lexeme_of_open {char : Char} {rest : List Char}
    (hopen : (lexeme char rest).1.closed = false) : (lexeme char rest).2 = [] := by
  unfold lexeme at hopen ⊢
  split_ifs at hopen ⊢
  · cases hopen
  · exact afterQuote_of_open hopen
  · exact afterBracket_of_open hopen
  · cases hopen
  · exact afterBlock_of_open hopen
  · cases hopen
  · cases hopen
  · cases hopen

end Sql
