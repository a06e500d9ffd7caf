import Krit.CatalogScan

/-!
# The statements of catalog SQL

The two checks of catalog SQL against a reading of the text by the lexical rules of SQL:
which texts each check accepts, and when what both accept is one statement.  They disagree
with SQL about the white space after a separator only.
-/

namespace Krit.Databases.CatalogSql

open Utf8 Sql

variable {sql : List Char}

/-! ## The statements of a text -/

/-- The statements of a text, split at the separators. -/
def statements (sql : List Char) : List (List Lexeme) :=
  ((lexemes sql).map Prod.fst).splitOnP Lexeme.isSeparator

/-- The text is one statement with an allowed keyword, and an optional separator with white
space after it. -/
structure SingleStatement (sql : List Char) (statement : List Lexeme) : Prop where
  one : (statements sql).filter (fun statement => statement.any Lexeme.isToken) = [statement]
  leading : ∃ word keyword, statement.find? Lexeme.isToken = some (.word word) ∧
    keyword ∈ allowedKeywords ∧ keyword <+: word.map Char.toLower
  trailing : ∃ after, statements sql = statement :: after ∧ after.length ≤ 1 ∧
    ∀ piece ∈ after, ∀ element ∈ piece, element = .space

/-- Every quote, bracket and block comment is closed. -/
def Closed (sql : List Char) : Prop := ∀ element ∈ lexemes sql, element.1.closed = true

/-- What follows each separator. -/
def separated (elements : List (Lexeme × List Char)) : List (List Char) :=
  (elements.filter fun element => element.1.isSeparator).map Prod.snd

/-- The first token or separator. -/
def firstElement (sql : List Char) : Option Lexeme :=
  ((lexemes sql).map Prod.fst).find? fun element => element.isToken || element.isSeparator

def isLetter (char : Char) : Bool := isAsciiAlphabetic char.toNat

/-- The text leads with a word whose letters spell an allowed keyword. -/
def Leads (sql : List Char) : Prop :=
  ∃ word, firstElement sql = some (.word word) ∧
    (word.takeWhile isLetter).map Char.toLower ∈ allowedKeywords

/-- An allowed statement, a separator, and characters that are white space, but not all of
them to SQL. -/
structure Stray (sql tail : List Char) : Prop where
  leads : Leads sql
  closed : Closed sql
  separated : separated (lexemes sql) = [tail]
  white : ∀ char ∈ tail, isWhitespace char = true
  stray : ∃ char ∈ tail, isSpace char = false

/-! ## The check for a second statement -/

theorem note_of_open {element : Lexeme × List Char} (hopen : element.1.closed = false)
    (tail : Option (List Char)) : ∃ message, note tail element = refuse message := by
  obtain ⟨lexeme, rest⟩ := element
  cases lexeme with
  | quoted closed =>
    simp only [Lexeme.closed] at hopen
    subst hopen
    exact ⟨_, rfl⟩
  | bracketed closed =>
    simp only [Lexeme.closed] at hopen
    subst hopen
    exact ⟨_, rfl⟩
  | blockComment closed =>
    simp only [Lexeme.closed] at hopen
    subst hopen
    exact ⟨_, rfl⟩
  | space => cases hopen
  | lineComment => cases hopen
  | separator => cases hopen
  | word text => cases hopen
  | symbol char => cases hopen

theorem note_of_closed {element : Lexeme × List Char} (hclosed : element.1.closed = true)
    (hseparator : element.1.isSeparator = false) (tail : Option (List Char)) :
    note tail element = .ok tail := by
  obtain ⟨lexeme, rest⟩ := element
  cases lexeme with
  | quoted closed =>
    simp only [Lexeme.closed] at hclosed
    subst hclosed
    rfl
  | bracketed closed =>
    simp only [Lexeme.closed] at hclosed
    subst hclosed
    rfl
  | blockComment closed =>
    simp only [Lexeme.closed] at hclosed
    subst hclosed
    rfl
  | space => rfl
  | lineComment => rfl
  | separator => cases hseparator
  | word text => rfl
  | symbol char => rfl

/-- The elements pass when all are closed and at most one is a separator. -/
theorem foldlM_note_iff (elements : List (Lexeme × List Char)) (tail found : Option (List Char)) :
    elements.foldlM note tail = .ok found ↔
      (∀ element ∈ elements, element.1.closed = true) ∧
        tail.toList ++ separated elements = found.toList := by
  induction elements generalizing tail with
  | nil =>
    have hnil : separated [] = [] := rfl
    rw [List.foldlM_nil, hnil, List.append_nil]
    constructor
    · intro heq
      injection heq with heq
      rw [heq]
      exact ⟨fun element helement => (by cases helement), rfl⟩
    · rintro ⟨-, heq⟩
      have hsame := congrArg List.head? heq
      rw [Option.head?_toList, Option.head?_toList] at hsame
      rw [hsame]
      rfl
  | cons element elements ih =>
    rw [List.foldlM_cons]
    by_cases hclosed : element.1.closed = true
    · by_cases hseparator : element.1.isSeparator = true
      · obtain ⟨lexeme, rest⟩ := element
        cases lexeme with
        | separator =>
          have hmore : separated ((.separator, rest) :: elements) = rest :: separated elements :=
            rfl
          rw [hmore]
          cases tail with
          | none =>
            change elements.foldlM note (some rest) = _ ↔ _
            rw [ih]
            simp only [List.mem_cons, forall_eq_or_imp, hclosed, true_and]
            rfl
          | some before =>
            refine ⟨fun heq => (by cases heq), fun heq => ?_⟩
            have hlength := congrArg List.length heq.2
            have hle : found.toList.length ≤ 1 := by cases found <;> simp
            simp only [Option.toList_some, List.length_append, List.length_cons] at hlength
            omega
        | space => cases hseparator
        | lineComment => cases hseparator
        | blockComment closed => cases hseparator
        | quoted closed => cases hseparator
        | bracketed closed => cases hseparator
        | word text => cases hseparator
        | symbol char => cases hseparator
      · have hplain : element.1.isSeparator = false := Bool.eq_false_iff.mpr hseparator
        have hmore : separated (element :: elements) = separated elements := by
          unfold separated
          rw [List.filter_cons, hplain, if_neg Bool.false_ne_true]
        rw [note_of_closed hclosed hplain, hmore]
        change elements.foldlM note tail = _ ↔ _
        rw [ih]
        simp only [List.mem_cons, forall_eq_or_imp, hclosed, true_and]
    · obtain ⟨message, hnote⟩ := note_of_open (Bool.eq_false_iff.mpr hclosed) tail
      rw [hnote]
      exact ⟨fun heq => (by cases heq),
        fun heq => absurd (heq.1 element List.mem_cons_self) hclosed⟩

/-- A scan that ends without a panic. -/
def Refused {α : Type} (result : Scan α) : Prop := ∃ message, result = refuse message

theorem foldlM_note_cases (elements : List (Lexeme × List Char)) (tail : Option (List Char)) :
    (∃ found, elements.foldlM note tail = .ok found) ∨ Refused (elements.foldlM note tail) := by
  induction elements generalizing tail with
  | nil => exact Or.inl ⟨tail, rfl⟩
  | cons element elements ih =>
    rw [List.foldlM_cons]
    have hcases : (∃ found, note tail element = .ok found) ∨ Refused (note tail element) := by
      obtain ⟨lexeme, rest⟩ := element
      unfold note Refused
      split
      · exact Or.inr ⟨_, rfl⟩
      · exact Or.inr ⟨_, rfl⟩
      · exact Or.inr ⟨_, rfl⟩
      · split
        · exact Or.inr ⟨_, rfl⟩
        · exact Or.inl ⟨_, rfl⟩
      · exact Or.inl ⟨_, rfl⟩
    rcases hcases with ⟨found, hfound⟩ | ⟨message, hrefused⟩
    · rw [hfound]
      exact ih found
    · rw [hrefused]
      exact Or.inr ⟨message, rfl⟩

/-! ## Trimming -/

theorem trim_eq_nil_iff (text : List Char) :
    (trim text).isEmpty = true ↔ ∀ char ∈ text, isWhitespace char = true := by
  unfold trim
  rw [List.isEmpty_iff, List.reverse_eq_nil_iff, List.dropWhile_eq_nil_iff]
  constructor
  · intro hall
    rw [← List.takeWhile_append_dropWhile (p := isWhitespace) (l := text)]
    intro char hchar
    rcases List.mem_append.mp hchar with htake | hdrop
    · exact List.mem_takeWhile_imp htake
    · exact hall char (List.mem_reverse.mpr hdrop)
  · intro hall char hchar
    exact hall char ((List.dropWhile_subset isWhitespace) (List.mem_reverse.mp hchar))

theorem isWhitespace_of_isSpace {char : Char} (hspace : isSpace char = true) :
    isWhitespace char = true := by
  simp only [isSpace, Bool.or_eq_true, beq_iff_eq] at hspace
  rcases hspace with (((heq | heq) | heq) | heq) | heq <;> subst heq <;> decide

/-! ## Both checks -/

theorem eq_of_isSeparator {char : Char} {rest : List Char}
    (hseparator : (lexeme char rest).1.isSeparator = true) :
    char = ';' ∧ lexeme char rest = (.separator, rest) := by
  unfold lexeme at hseparator ⊢
  split_ifs at hseparator ⊢ with hspace hquote hbracket hline hblock hchar hword
  · cases hseparator
  · cases hseparator
  · cases hseparator
  · cases hseparator
  · cases hseparator
  · exact ⟨hchar, rfl⟩
  · cases hseparator
  · cases hseparator

theorem suffix_of_mem_separated {tail : List Char} (htail : tail ∈ separated (lexemes sql)) :
    ';' :: tail <:+ sql := by
  induction sql using lexemes_induction with
  | hnil => simp [lexemes_nil, separated] at htail
  | hcons char rest ih =>
    have hsuffix := (lexeme_suffix char rest).trans (List.suffix_cons char rest)
    rw [lexemes_cons, separated, List.filter_cons] at htail
    split at htail
    · rename_i hseparator
      obtain ⟨hchar, hlexeme⟩ := eq_of_isSeparator hseparator
      rcases List.mem_cons.mp htail with heq | hmore
      · rw [heq, hlexeme, hchar]
      · exact (ih hmore).trans hsuffix
    · exact (ih htail).trans hsuffix

theorem separatorAt_succ {tail : List Char} (htail : tail ∈ separated (lexemes sql)) :
    separatorAt sql tail + 1 = position sql tail := by
  unfold separatorAt
  rw [position_of_cons (suffix_of_mem_separated htail) (by decide), Nat.add_sub_cancel]

theorem rejectTrailingStatement_lexemes :
    rejectTrailingStatement sql = (lexemes sql).foldlM note none >>= fun found =>
      match found with
      | none => .ok ()
      | some tail =>
          if (trim tail).isEmpty then .ok ()
          else refuse "catalog statement must contain exactly one SQL statement" := by
  have hscan := scanSeparator_lexemes (List.suffix_refl sql) none
  rw [position_self, Option.map_none] at hscan
  unfold rejectTrailingStatement
  rw [hscan]
  cases hfold : (lexemes sql).foldlM note none with
  | error stop => rfl
  | ok found =>
    cases found with
    | none => rfl
    | some tail =>
      have hseparated := ((foldlM_note_iff _ _ _).mp hfold).2
      rw [Option.toList_none, List.nil_append] at hseparated
      have htail : tail ∈ separated (lexemes sql) := by
        rw [hseparated]
        exact List.mem_cons_self
      have hsuffix := (List.suffix_cons ';' tail).trans (suffix_of_mem_separated htail)
      have hstr : strFrom sql (separatorAt sql tail + 1) = .ok tail := by
        rw [separatorAt_succ htail, strFrom_position hsuffix]
      simp only [bind, Except.bind, Option.map_some, hstr]

theorem rejectTrailingStatement_ok_iff :
    rejectTrailingStatement sql = .ok () ↔
      Closed sql ∧ ∃ found : Option (List Char), separated (lexemes sql) = found.toList ∧
        ∀ tail ∈ found, ∀ char ∈ tail, isWhitespace char = true := by
  rw [rejectTrailingStatement_lexemes]
  constructor
  · intro hok
    cases hfold : (lexemes sql).foldlM note none with
    | error stop =>
      rw [hfold] at hok
      cases hok
    | ok found =>
      obtain ⟨hclosed, hseparated⟩ := (foldlM_note_iff _ _ _).mp hfold
      refine ⟨hclosed, found, hseparated, fun tail htail => ?_⟩
      rw [hfold, Option.mem_def.mp htail] at hok
      simp only [bind, Except.bind] at hok
      split at hok
      · rename_i htrim
        exact (trim_eq_nil_iff tail).mp htrim
      · cases hok
  · rintro ⟨hclosed, found, hseparated, hwhite⟩
    have hfold : (lexemes sql).foldlM note none = .ok found :=
      (foldlM_note_iff _ _ _).mpr ⟨hclosed, hseparated⟩
    rw [hfold]
    cases found with
    | none => rfl
    | some tail =>
      simp only [bind, Except.bind]
      rw [if_pos ((trim_eq_nil_iff tail).mpr (hwhite tail rfl))]

theorem rejectTrailingStatement_no_panic : rejectTrailingStatement sql ≠ .error .panicked := by
  rw [rejectTrailingStatement_lexemes]
  rcases foldlM_note_cases (lexemes sql) none with ⟨found, hfound⟩ | ⟨message, hrefused⟩
  · rw [hfound]
    cases found with
    | none => exact fun heq => (by cases heq)
    | some tail =>
      simp only [bind, Except.bind]
      split
      · exact fun heq => (by cases heq)
      · exact fun heq => (by cases heq)
  · rw [hrefused]
    exact fun heq => (by cases heq)

/-! ## The leading keyword -/

theorem advanceWhile_position {test : ℕ → Bool} (htest : ∀ byte, test byte = true → byte < 128)
    {rest : List Char} (hsuffix : rest <:+ sql) :
    advanceWhile test (encode sql) (position sql rest) =
      position sql (rest.dropWhile fun char => test char.toNat) := by
  induction rest with
  | nil =>
    rw [advanceWhile, dif_neg]
    · rfl
    · rw [position_nil, length_encode]
      exact lt_irrefl _
  | cons char rest ih =>
    obtain ⟨hindex, hbyte⟩ := first_byte hsuffix
    have hrest : rest <:+ sql := (List.suffix_cons _ _).trans hsuffix
    rw [advanceWhile, dif_pos hindex, List.dropWhile_cons]
    by_cases hascii : char.toNat < 128
    · rw [(hbyte char hascii).mpr rfl, ← position_of_cons hsuffix hascii, ih hrest]
      split <;> rfl
    · have hchar : test char.toNat = false := Bool.eq_false_iff.mpr fun h => hascii (htest _ h)
      have hget := byte_of_char hsuffix (length_charBytes_pos char)
      rw [Nat.add_zero, List.getElem?_eq_getElem hindex, Option.some.injEq] at hget
      have hwide := le_of_mem_charBytes hascii _ (List.getElem_mem (length_charBytes_pos char))
      have hfirst : test (encode sql)[position sql (char :: rest)] = false := by
        rw [hget, Bool.eq_false_iff]
        exact fun h => absurd (htest _ h) (Nat.not_lt.mpr hwide)
      rw [hfirst, hchar, if_neg Bool.false_ne_true, if_neg Bool.false_ne_true]

theorem isAsciiWhitespace_toNat (char : Char) : isAsciiWhitespace char.toNat = isSpace char := by
  have hsame : ∀ target : Char, (char.toNat == target.toNat) = (char == target) := by
    intro target
    rw [Bool.eq_iff_iff, beq_iff_eq, beq_iff_eq, Char.toNat_inj]
  exact congrArg₂ or (congrArg₂ or (congrArg₂ or (congrArg₂ or (hsame ' ') (hsame '\t'))
    (hsame '\n')) (hsame (Char.ofNat 12))) (hsame '\r')

/-- The text behind white space and comments. -/
def significant : List (Lexeme × List Char) → List Char → Scan (List Char)
  | [], rest => .ok rest
  | (.space, after) :: more, _ => significant more after
  | (.lineComment, after) :: more, _ => significant more after
  | (.blockComment true, after) :: more, _ => significant more after
  | (.blockComment false, _) :: _, _ =>
      refuse "catalog statement has an unterminated block comment"
  | _ :: _, rest => .ok rest

theorem lt_of_isAsciiWhitespace (byte : ℕ) (hbyte : isAsciiWhitespace byte = true) :
    byte < 128 := by
  simp only [isAsciiWhitespace, Bool.or_eq_true, beq_iff_eq] at hbyte
  omega

/-- Whether two ASCII characters stand at a position. -/
theorem two_bytes_iff {first second : Char} (hfirst : first.toNat < 128)
    (hsecond : second.toNat < 128) {rest : List Char} (hsuffix : rest <:+ sql) :
    ((encode sql)[position sql rest]? = some first.toNat ∧
        (encode sql)[position sql rest + 1]? = some second.toNat) ↔
      rest.head? = some first ∧ rest.tail.head? = some second := by
  rw [byte_position_iff hfirst hsuffix]
  refine and_congr_right fun hhead => ?_
  obtain ⟨more, hrest⟩ := List.head?_eq_some_iff.mp hhead
  subst hrest
  rw [← position_of_cons hsuffix hfirst,
    byte_position_iff hsecond ((List.suffix_cons _ _).trans hsuffix), List.tail_cons]

theorem lineEnd_bind {rest : List Char} {α : Type} (hsuffix : rest <:+ sql) {index : ℕ}
    (hposition : index = position sql rest) (hindex : index < (encode sql).length)
    (resume : ℕ → Scan α) :
    (lineEnd (encode sql) index hindex >>= fun next => resume next) =
      resume (position sql (afterLine rest)) := by
  subst hposition
  exact (lineEnd_position hsuffix hindex).bind resume

theorem blockEnd_bind {α : Type} {index position : ℕ} (hposition : index = position)
    (resume : ℕ → Scan α) :
    (blockEnd sql index >>= fun next => resume next) =
      blockEnd sql position >>= fun next => resume next := by
  subst hposition
  rfl

theorem skipIgnorable_position {rest after : List Char} (hsuffix : rest <:+ sql)
    (hafter : rest.dropWhile isSpace = after) :
    skipIgnorable sql (position sql rest) =
      if after.head? = some '-' ∧ after.tail.head? = some '-' then
        skipIgnorable sql (position sql (afterLine after))
      else if after.head? = some '/' ∧ after.tail.head? = some '*' then
        blockEnd sql (position sql after) >>= fun next => skipIgnorable sql next
      else .ok (position sql after) := by
  have hadvance := advanceWhile_position lt_of_isAsciiWhitespace hsuffix
  have hsame : (fun char : Char => isAsciiWhitespace char.toNat) = isSpace :=
    funext isAsciiWhitespace_toNat
  have hafterSuffix : after <:+ sql := by
    rw [← hafter]
    exact (List.dropWhile_suffix _).trans hsuffix
  rw [hsame, hafter] at hadvance
  rw [skipIgnorable]
  simp only [hadvance]
  by_cases hline : after.head? = some '-' ∧ after.tail.head? = some '-'
  · have hbytes := (two_bytes_iff (by decide) (by decide) hafterSuffix).mpr hline
    rw [dif_pos hbytes, if_pos hline]
    exact lineEnd_bind hafterSuffix hadvance _ fun next => skipIgnorable sql next
  · have hbytes := mt (two_bytes_iff (by decide) (by decide) hafterSuffix).mp hline
    rw [dif_neg hbytes, if_neg hline]
    by_cases hblock : after.head? = some '/' ∧ after.tail.head? = some '*'
    · have hbytes := (two_bytes_iff (by decide) (by decide) hafterSuffix).mpr hblock
      rw [dif_pos hbytes, if_pos hblock]
      exact blockEnd_bind hadvance fun next => skipIgnorable sql next
    · have hbytes := mt (two_bytes_iff (by decide) (by decide) hafterSuffix).mp hblock
      rw [dif_neg hbytes, if_neg hblock]

theorem skipIgnorable_lexemes {rest : List Char} (hsuffix : rest <:+ sql) :
    skipIgnorable sql (position sql rest) =
      significant (lexemes rest) rest >>= fun after => .ok (position sql after) := by
  induction rest using lexemes_induction with
  | hnil =>
    rw [skipIgnorable_position hsuffix rfl, lexemes_nil]
    rfl
  | hcons char rest ih =>
    have hrest : rest <:+ sql := (List.suffix_cons _ _).trans hsuffix
    have hnext : (lexeme char rest).2 <:+ sql := (lexeme_suffix char rest).trans hrest
    have hmore := ih hnext
    rw [lexemes_cons]
    unfold lexeme at hmore ⊢
    by_cases hspace : isSpace char = true
    · rw [if_pos hspace] at hmore ⊢
      have hdrop : (char :: rest).dropWhile isSpace = rest.dropWhile isSpace := by
        rw [List.dropWhile_cons, if_pos hspace]
      rw [skipIgnorable_position hsuffix hdrop, ← skipIgnorable_position hrest rfl]
      exact hmore
    · have hdrop : (char :: rest).dropWhile isSpace = char :: rest := by
        rw [List.dropWhile_cons, if_neg hspace]
      rw [if_neg hspace] at hmore ⊢
      rw [skipIgnorable_position hsuffix hdrop]
      simp only [List.head?_cons, List.tail_cons, Option.some.injEq]
      by_cases hline : char = '-' ∧ rest.head? = some '-'
      · have hquote : isQuote '-' = false := rfl
        have hbracket : '-' ≠ '[' := by decide
        obtain ⟨hchar, hhead⟩ := hline
        obtain ⟨more, hrest⟩ := List.head?_eq_some_iff.mp hhead
        subst hchar hrest
        rw [hquote, if_neg Bool.false_ne_true, if_neg hbracket, if_pos ⟨rfl, rfl⟩] at hmore ⊢
        rw [if_pos ⟨rfl, rfl⟩]
        exact hmore
      · rw [if_neg hline]
        by_cases hblock : char = '/' ∧ rest.head? = some '*'
        · have hquote : isQuote '/' = false := rfl
          have hbracket : '/' ≠ '[' := by decide
          obtain ⟨hchar, hhead⟩ := hblock
          obtain ⟨more, hrest⟩ := List.head?_eq_some_iff.mp hhead
          subst hchar hrest
          rw [hquote, if_neg Bool.false_ne_true, if_neg hbracket, if_neg hline,
            if_pos ⟨rfl, rfl⟩] at hmore ⊢
          rw [if_pos ⟨rfl, rfl⟩]
          cases hclosed : (afterBlock more).1 with
          | true =>
            have hend := blockEnd_position hsuffix rfl hclosed
            simp only [List.tail_cons, hclosed] at hmore ⊢
            rw [hend.bind fun next => skipIgnorable sql next]
            exact hmore
          | false =>
            simp only [List.tail_cons, blockEnd_of_open hsuffix rfl hclosed, hclosed]
            rfl
        · rw [if_neg hblock]
          split_ifs
          · rfl
          · rfl
          · rfl
          · rfl
          · rfl

/-- Where the significant text begins, the first element of the text begins. -/
theorem significant_cases (rest : List Char) :
    (Refused (significant (lexemes rest) rest) ∧ firstElement rest = none) ∨
      ∃ after, significant (lexemes rest) rest = .ok after ∧ after <:+ rest ∧
        firstElement rest = (after.head?.map fun char => (lexeme char after.tail).1) := by
  induction rest using lexemes_induction with
  | hnil =>
    unfold firstElement
    rw [lexemes_nil]
    exact Or.inr ⟨[], rfl, List.suffix_refl _, rfl⟩
  | hcons char rest ih =>
    have hsuffix := (lexeme_suffix char rest).trans (List.suffix_cons char rest)
    have hfirst : firstElement (char :: rest) =
        if (lexeme char rest).1.isToken || (lexeme char rest).1.isSeparator then
          some (lexeme char rest).1
        else firstElement (lexeme char rest).2 := by
      unfold firstElement
      rw [lexemes_cons, List.map_cons, List.find?_cons]
      split <;> simp_all
    have hpass : (lexeme char rest).1.isToken = false → (lexeme char rest).1.isSeparator = false →
        significant (lexemes (char :: rest)) (char :: rest) =
          significant (lexemes (lexeme char rest).2) (lexeme char rest).2 →
        (Refused (significant (lexemes (char :: rest)) (char :: rest)) ∧
          firstElement (char :: rest) = none) ∨
        ∃ after, significant (lexemes (char :: rest)) (char :: rest) = .ok after ∧
          after <:+ char :: rest ∧ firstElement (char :: rest) =
            (after.head?.map fun char => (lexeme char after.tail).1) := by
      intro htoken hseparator hsame
      rw [hfirst, htoken, hseparator, hsame]
      rcases ih with ⟨hrefused, hnone⟩ | ⟨after, hok, hafter, hhead⟩
      · exact Or.inl ⟨hrefused, hnone⟩
      · exact Or.inr ⟨after, hok, hafter.trans hsuffix, hhead⟩
    have hstop : ((lexeme char rest).1.isToken || (lexeme char rest).1.isSeparator) = true →
        significant (lexemes (char :: rest)) (char :: rest) = .ok (char :: rest) →
        ∃ after, significant (lexemes (char :: rest)) (char :: rest) = .ok after ∧
          after <:+ char :: rest ∧ firstElement (char :: rest) =
            (after.head?.map fun char => (lexeme char after.tail).1) := by
      intro htoken hok
      rw [hfirst, if_pos htoken]
      exact ⟨char :: rest, hok, List.suffix_refl _, rfl⟩
    have hopen := @lexeme_of_open char rest
    rw [lexemes_cons] at hpass hstop ⊢
    generalize lexeme char rest = found at hfirst hpass hstop hopen ⊢
    obtain ⟨element, after⟩ := found
    cases element with
    | space => exact hpass rfl rfl rfl
    | lineComment => exact hpass rfl rfl rfl
    | blockComment closed =>
      cases closed with
      | true => exact hpass rfl rfl rfl
      | false =>
        have hnil : after = [] := hopen rfl
        subst hnil
        refine Or.inl ⟨⟨_, rfl⟩, ?_⟩
        rw [hfirst]
        unfold firstElement
        rw [lexemes_nil]
        rfl
    | quoted closed => exact Or.inr (hstop rfl rfl)
    | bracketed closed => exact Or.inr (hstop rfl rfl)
    | separator => exact Or.inr (hstop rfl rfl)
    | word text => exact Or.inr (hstop rfl rfl)
    | symbol char => exact Or.inr (hstop rfl rfl)

/-! ## The check of the keyword -/

theorem lt_of_isAsciiAlphabetic (byte : ℕ) (hbyte : isAsciiAlphabetic byte = true) :
    byte < 128 := by
  simp only [isAsciiAlphabetic, Bool.or_eq_true, Bool.and_eq_true, decide_eq_true_eq] at hbyte
  omega

theorem leadingKeyword_lexemes :
    leadingKeyword sql = significant (lexemes sql) sql >>= fun rest =>
      if rest.takeWhile isLetter = [] then
        refuse "catalog statement must start with SELECT, WITH, INSERT, UPDATE, DELETE, or REPLACE"
      else .ok ((rest.takeWhile isLetter).map Char.toLower) := by
  have hskip := skipIgnorable_lexemes (List.suffix_refl sql)
  rw [position_self] at hskip
  unfold leadingKeyword
  rw [hskip]
  rcases significant_cases sql with ⟨⟨message, hrefused⟩, -⟩ | ⟨rest, hok, hsuffix, -⟩
  · rw [hrefused]
    rfl
  · rw [hok]
    have hadvance : advanceWhile isAsciiAlphabetic (encode sql) (position sql rest) =
        position sql (rest.dropWhile isLetter) :=
      advanceWhile_position lt_of_isAsciiAlphabetic hsuffix
    have hsplit : rest = rest.takeWhile isLetter ++ rest.dropWhile isLetter :=
      List.takeWhile_append_dropWhile.symm
    have hposition := position_of_append hsuffix hsplit
    have hend : rest.dropWhile isLetter <:+ sql := (List.dropWhile_suffix _).trans hsuffix
    simp only [bind, Except.bind, hadvance]
    by_cases hnone : rest.takeWhile isLetter = []
    · rw [hnone, size_nil, Nat.add_zero] at hposition
      rw [if_pos hposition, if_pos hnone]
    · have hpos : 0 < size (rest.takeWhile isLetter) := by
        have hlength := length_le_size (rest.takeWhile isLetter)
        have hne := List.length_pos_of_ne_nil hnone
        omega
      have htake : rest.take (rest.length - (rest.dropWhile isLetter).length) =
          rest.takeWhile isLetter := by
        have hlength := congrArg List.length hsplit
        rw [List.length_append] at hlength
        have hcount : rest.length - (rest.dropWhile isLetter).length =
            (rest.takeWhile isLetter).length := by omega
        rw [hcount]
        exact (List.prefix_iff_eq_take.mp (List.takeWhile_prefix isLetter)).symm
      have hbetween : strBetween sql (position sql rest) (position sql (rest.dropWhile isLetter)) =
          .ok (rest.takeWhile isLetter) := by
        unfold strBetween
        rw [strFrom_position hsuffix, strFrom_position hend]
        simp only [bind, Except.bind]
        rw [if_pos (by omega), htake]
      rw [if_neg (by omega), if_neg hnone, hbetween]

theorem isWordChar_of_isLetter {char : Char} (hletter : isLetter char = true) :
    isWordChar char = true := by
  have hcode : isAsciiAlphabetic char.toNat = true := hletter
  simp only [isAsciiAlphabetic, Bool.or_eq_true, Bool.and_eq_true, decide_eq_true_eq] at hcode
  have halpha : char.isAlpha = true := by
    simp only [Char.isAlpha, Char.isUpper, Char.isLower, Bool.or_eq_true, Bool.and_eq_true,
      decide_eq_true_eq, ge_iff_le, UInt32.le_iff_toNat_le]
    exact hcode
  simp only [isWordChar, Char.isAlphanum, halpha, Bool.true_or]

/-- The letters at the beginning of a word are those at the beginning of the text. -/
theorem letters_of_word {char : Char} {rest word : List Char}
    (hword : (lexeme char rest).1 = .word word) :
    word.takeWhile isLetter = (char :: rest).takeWhile isLetter := by
  unfold lexeme at hword
  split_ifs at hword with hspace hquote hbracket hline hblock hseparator hchar
  · injection hword with hword
    have htake : word = (char :: rest).takeWhile isWordChar := by
      rw [List.takeWhile_cons, if_pos hchar, hword]
    rw [htake, List.takeWhile_takeWhile]
    congr 1
    funext char
    rw [Bool.eq_iff_iff, decide_eq_true_eq]
    exact and_iff_left_of_imp isWordChar_of_isLetter

theorem word_of_isLetter {char : Char} {rest : List Char} (hletter : isLetter char = true) :
    ∃ word, (lexeme char rest).1 = .word word := by
  have hplain := @plain_of_kind isLetter rfl char hletter rest
  obtain ⟨hquote, hbracket, hline, hblock, hseparator⟩ := hplain
  have hspace : isSpace char = false := by
    rw [Bool.eq_false_iff]
    intro hspace
    simp only [isSpace, Bool.or_eq_true, beq_iff_eq] at hspace
    rcases hspace with (((heq | heq) | heq) | heq) | heq <;> subst heq <;> cases hletter
  unfold lexeme
  rw [hspace, if_neg Bool.false_ne_true, hquote, if_neg Bool.false_ne_true, if_neg hbracket,
    if_neg hline, if_neg hblock, if_neg hseparator, if_pos (isWordChar_of_isLetter hletter)]
  exact ⟨_, rfl⟩

theorem not_mem_forbidden {keyword : List Char} (hkeyword : keyword ∈ allowedKeywords) :
    keyword ∉ forbiddenKeywords := by
  have hdisjoint : ∀ keyword ∈ allowedKeywords, keyword ∉ forbiddenKeywords := by decide
  exact hdisjoint keyword hkeyword

theorem ne_nil_of_allowed {letters : List Char}
    (hallowed : letters.map Char.toLower ∈ allowedKeywords) : letters ≠ [] := by
  rintro rfl
  revert hallowed
  decide

theorem rejectForbiddenKeyword_ok_iff : rejectForbiddenKeyword sql = .ok () ↔ Leads sql := by
  unfold rejectForbiddenKeyword Leads
  rw [leadingKeyword_lexemes]
  rcases significant_cases sql with ⟨⟨message, hrefused⟩, hnone⟩ | ⟨rest, hok, -, hfirst⟩
  · rw [hrefused, hnone]
    exact ⟨fun heq => (by cases heq), fun ⟨word, hword, _⟩ => (by cases hword)⟩
  · rw [hok, hfirst]
    simp only [bind, Except.bind]
    constructor
    · intro haccepted
      by_cases hletters : rest.takeWhile isLetter = []
      · rw [if_pos hletters] at haccepted
        cases haccepted
      · rw [if_neg hletters] at haccepted
        have hallowed : (rest.takeWhile isLetter).map Char.toLower ∈ allowedKeywords := by
          by_contra hnot
          by_cases hforbidden : (rest.takeWhile isLetter).map Char.toLower ∈ forbiddenKeywords
          · simp only [if_pos hforbidden] at haccepted
            cases haccepted
          · simp only [if_neg hforbidden, if_pos hnot] at haccepted
            cases haccepted
        cases rest with
        | nil => exact absurd rfl hletters
        | cons char rest =>
          have hletter : isLetter char = true := by
            by_contra hnot
            rw [List.takeWhile_cons, if_neg hnot] at hletters
            exact hletters rfl
          obtain ⟨word, hword⟩ := @word_of_isLetter char rest hletter
          refine ⟨word, congrArg some hword, ?_⟩
          rw [letters_of_word hword]
          exact hallowed
    · rintro ⟨word, hword, hallowed⟩
      cases rest with
      | nil => cases hword
      | cons char rest =>
        injection hword with hword
        rw [List.tail_cons] at hword
        rw [letters_of_word hword] at hallowed
        rw [if_neg (ne_nil_of_allowed hallowed)]
        simp only [if_neg (not_mem_forbidden hallowed), if_neg (not_not.mpr hallowed)]

theorem rejectForbiddenKeyword_no_panic : rejectForbiddenKeyword sql ≠ .error .panicked := by
  unfold rejectForbiddenKeyword
  rw [leadingKeyword_lexemes]
  rcases significant_cases sql with ⟨⟨message, hrefused⟩, -⟩ | ⟨rest, hok, -, -⟩
  · rw [hrefused]
    exact fun heq => (by cases heq)
  · rw [hok]
    simp only [bind, Except.bind]
    by_cases hletters : rest.takeWhile isLetter = []
    · rw [if_pos hletters]
      exact fun heq => (by cases heq)
    · rw [if_neg hletters]
      dsimp only
      split_ifs
      · exact fun heq => (by cases heq)
      · exact fun heq => (by cases heq)
      · exact fun heq => (by cases heq)

/-! ## The split at separators -/

/-- What stands behind an element of a text are the elements of the text behind it. -/
theorem lexemes_split {before after : List (Lexeme × List Char)} {element : Lexeme}
    {rest : List Char} (hsplit : lexemes sql = before ++ (element, rest) :: after) :
    after = lexemes rest := by
  induction sql using lexemes_induction generalizing before with
  | hnil =>
    rw [lexemes_nil] at hsplit
    exact absurd hsplit.symm (List.append_ne_nil_of_right_ne_nil _ (List.cons_ne_nil _ _))
  | hcons char more ih =>
    rw [lexemes_cons] at hsplit
    cases before with
    | nil =>
      injection hsplit with hhead htail
      rw [← htail, hhead]
    | cons first before =>
      injection hsplit with hhead htail
      exact ih htail

theorem all_space_iff (tail : List Char) :
    (∀ element ∈ (lexemes tail).map Prod.fst, element = .space) ↔
      ∀ char ∈ tail, isSpace char = true := by
  induction tail using lexemes_induction with
  | hnil => simp [lexemes_nil]
  | hcons char rest ih =>
    rw [lexemes_cons, List.map_cons]
    by_cases hspace : isSpace char = true
    · have hlexeme : lexeme char rest = (.space, rest) := by
        rw [lexeme, if_pos hspace]
      rw [hlexeme] at ih ⊢
      simp only [List.mem_cons, forall_eq_or_imp, true_and, hspace]
      exact ih
    · have hother : (lexeme char rest).1 ≠ .space := by
        unfold lexeme
        rw [if_neg hspace]
        split_ifs <;> exact fun heq => (by cases heq)
      constructor
      · exact fun hall => absurd (hall _ List.mem_cons_self) hother
      · exact fun hall => absurd (hall _ List.mem_cons_self) hspace

theorem statements_of_none (hnone : separated (lexemes sql) = []) :
    statements sql = [(lexemes sql).map Prod.fst] ∧
      ∀ element ∈ (lexemes sql).map Prod.fst, element.isSeparator = false := by
  have hplain : ∀ element ∈ (lexemes sql).map Prod.fst, element.isSeparator = false := by
    intro element helement
    obtain ⟨found, hfound, rfl⟩ := List.mem_map.mp helement
    have hempty := List.filter_eq_nil_iff.mp (List.map_eq_nil_iff.mp hnone) found hfound
    exact Bool.eq_false_iff.mpr hempty
  exact ⟨List.splitOnP_eq_singleton hplain, hplain⟩

theorem statements_of_cons {tail : List Char} {more : List (List Char)}
    (hseparated : separated (lexemes sql) = tail :: more) :
    ∃ before, statements sql = before :: statements tail ∧
      (lexemes sql).map Prod.fst = before ++ .separator :: (lexemes tail).map Prod.fst ∧
      (∀ element ∈ before, element.isSeparator = false) ∧ separated (lexemes tail) = more := by
  obtain ⟨found, rest, hfilter, hfound, hrest⟩ := List.map_eq_cons_iff.mp hseparated
  obtain ⟨before, after, hsplit, hbefore, hseparator, hafter⟩ := List.filter_eq_cons_iff.mp hfilter
  obtain ⟨element, text⟩ := found
  dsimp only at hfound hseparator
  subst hfound
  have hlexemes := lexemes_split hsplit
  have hkind : element = .separator := by
    cases element with
    | separator => rfl
    | space => cases hseparator
    | lineComment => cases hseparator
    | blockComment closed => cases hseparator
    | quoted closed => cases hseparator
    | bracketed closed => cases hseparator
    | word text => cases hseparator
    | symbol char => cases hseparator
  subst hkind
  have hmap : (lexemes sql).map Prod.fst =
      before.map Prod.fst ++ .separator :: (lexemes text).map Prod.fst := by
    rw [hsplit, List.map_append, List.map_cons, hlexemes]
  have hplain : ∀ element ∈ before.map Prod.fst, element.isSeparator = false := by
    intro element helement
    obtain ⟨found, hfound, rfl⟩ := List.mem_map.mp helement
    exact Bool.eq_false_iff.mpr (hbefore found hfound)
  refine ⟨before.map Prod.fst, ?_, hmap, hplain, ?_⟩
  · unfold statements
    rw [hmap, List.splitOnP_append_cons_of_forall_mem hplain _ hseparator]
  · rw [← hlexemes, ← hrest, ← hafter]
    rfl

theorem find_of_plain {statement : List Lexeme}
    (hstatement : ∀ element ∈ statement, element.isSeparator = false) :
    statement.find? (fun element => element.isToken || element.isSeparator) =
      statement.find? Lexeme.isToken := by
  induction statement with
  | nil => rfl
  | cons element statement ih =>
    have hmore : ∀ element ∈ statement, element.isSeparator = false :=
      fun element helement => hstatement element (List.mem_cons_of_mem _ helement)
    rw [List.find?_cons, List.find?_cons, hstatement element List.mem_cons_self, Bool.or_false,
      ih hmore]

/-- The first token of a statement, if the text does not begin with a separator. -/
theorem find_of_firstElement {statement rest : List Lexeme} {word : List Char}
    (hfirst : (statement ++ rest).find? (fun element => element.isToken || element.isSeparator) =
      some (.word word))
    (hstatement : ∀ element ∈ statement, element.isSeparator = false)
    (hrest : rest = [] ∨ ∃ after, rest = .separator :: after) :
    statement.find? Lexeme.isToken = some (.word word) := by
  rw [List.find?_append, find_of_plain hstatement] at hfirst
  cases hfound : statement.find? Lexeme.isToken with
  | some found =>
    rw [hfound] at hfirst
    exact hfirst
  | none =>
    rw [hfound, Option.none_or] at hfirst
    rcases hrest with hnil | ⟨after, hcons⟩
    · rw [hnil] at hfirst
      cases hfirst
    · rw [hcons] at hfirst
      cases hfirst

theorem isPrefix_letters (word : List Char) :
    (word.takeWhile isLetter).map Char.toLower <+: word.map Char.toLower :=
  (List.takeWhile_prefix isLetter).map Char.toLower

theorem any_isToken_of_find {statement : List Lexeme} {word : List Char}
    (hfind : statement.find? Lexeme.isToken = some (.word word)) :
    statement.any Lexeme.isToken = true :=
  List.any_eq_true.mpr ⟨_, List.mem_of_find?_eq_some hfind, List.find?_some hfind⟩

/-! ## Agreement with SQL -/

/-- What both checks accept is one statement, if nothing stray follows its separator. -/
theorem singleStatement_of_accepted (hkeyword : rejectForbiddenKeyword sql = .ok ())
    (htrailing : rejectTrailingStatement sql = .ok ()) (hstray : ∀ tail, ¬ Stray sql tail) :
    ∃ statement, SingleStatement sql statement := by
  have hleads := rejectForbiddenKeyword_ok_iff.mp hkeyword
  obtain ⟨hclosed, found, hseparated, hwhite⟩ := rejectTrailingStatement_ok_iff.mp htrailing
  have hletters := hleads
  obtain ⟨word, hfirst, hallowed⟩ := hletters
  unfold firstElement at hfirst
  cases found with
  | none =>
    obtain ⟨hstatements, hplain⟩ := statements_of_none hseparated
    rw [← List.append_nil ((lexemes sql).map Prod.fst)] at hfirst
    have hfind := find_of_firstElement hfirst hplain (Or.inl rfl)
    refine ⟨_, ?_, ⟨word, _, hfind, hallowed, isPrefix_letters word⟩, [], hstatements, by simp,
      fun piece hpiece => (by cases hpiece)⟩
    rw [hstatements, List.filter_cons, if_pos (any_isToken_of_find hfind), List.filter_nil]
  | some tail =>
    obtain ⟨before, hstatements, hmap, hplain, hmore⟩ := statements_of_cons hseparated
    obtain ⟨hrest, -⟩ := statements_of_none hmore
    rw [hmap] at hfirst
    have hfind := find_of_firstElement hfirst hplain (Or.inr ⟨_, rfl⟩)
    have hspace : ∀ char ∈ tail, isSpace char = true := by
      by_contra hnot
      push Not at hnot
      obtain ⟨char, hchar, hspace⟩ := hnot
      exact hstray tail ⟨hleads, hclosed, hseparated, hwhite tail rfl, char, hchar,
        Bool.eq_false_iff.mpr hspace⟩
    have hspaces := (all_space_iff tail).mpr hspace
    have hempty : ((lexemes tail).map Prod.fst).any Lexeme.isToken = false := by
      rw [List.any_eq_false]
      intro element helement
      rw [hspaces element helement]
      exact Bool.false_ne_true
    rw [hrest] at hstatements
    refine ⟨before, ?_, ⟨word, _, hfind, hallowed, isPrefix_letters word⟩, _, hstatements, by simp,
      fun piece hpiece => ?_⟩
    · rw [hstatements, List.filter_cons, if_pos (any_isToken_of_find hfind), List.filter_cons,
        hempty, if_neg Bool.false_ne_true, List.filter_nil]
    · rw [List.mem_singleton.mp hpiece]
      exact hspaces

theorem statements_ne_nil (sql : List Char) : statements sql ≠ [] := List.splitOnP_ne_nil _ _

/-- One statement has one separator at most, with white space after it. -/
theorem SingleStatement.separated {statement : List Lexeme}
    (hsingle : SingleStatement sql statement) :
    ∃ found : Option (List Char), separated (lexemes sql) = found.toList ∧
      ∀ tail ∈ found, ∀ char ∈ tail, isSpace char = true := by
  obtain ⟨after, hstatements, hlength, hspaces⟩ := hsingle.trailing
  cases hseparated : CatalogSql.separated (lexemes sql) with
  | nil => exact ⟨none, rfl, fun tail htail => (by cases htail)⟩
  | cons tail more =>
    obtain ⟨before, hsplit, -, -, hmore⟩ := statements_of_cons hseparated
    rw [hsplit] at hstatements
    injection hstatements with hhead hafter
    cases more with
    | cons next more =>
      obtain ⟨second, hsecond, -⟩ := statements_of_cons hmore
      have hpos := List.length_pos_of_ne_nil (statements_ne_nil next)
      rw [← hafter, hsecond, List.length_cons] at hlength
      omega
    | nil =>
      obtain ⟨hrest, -⟩ := statements_of_none hmore
      refine ⟨some tail, rfl, fun found hfound => ?_⟩
      rw [← Option.some.inj hfound]
      refine (all_space_iff tail).mp (hspaces _ ?_)
      rw [← hafter, hrest]
      exact List.mem_singleton_self _

theorem rejectTrailingStatement_of_single {statement : List Lexeme}
    (hsingle : SingleStatement sql statement) (hclosed : Closed sql) :
    rejectTrailingStatement sql = .ok () := by
  obtain ⟨found, hseparated, hspace⟩ := hsingle.separated
  exact rejectTrailingStatement_ok_iff.mpr ⟨hclosed, found, hseparated,
    fun tail htail char hchar => isWhitespace_of_isSpace (hspace tail htail char hchar)⟩

theorem Stray.accepted {tail : List Char} (hstray : Stray sql tail) :
    rejectForbiddenKeyword sql = .ok () ∧ rejectTrailingStatement sql = .ok () := by
  refine ⟨rejectForbiddenKeyword_ok_iff.mpr hstray.leads,
    rejectTrailingStatement_ok_iff.mpr ⟨hstray.closed, some tail, hstray.separated, ?_⟩⟩
  intro found hfound
  rw [← Option.some.inj hfound]
  exact hstray.white

theorem Stray.not_single {tail : List Char} (hstray : Stray sql tail) (statement : List Lexeme) :
    ¬ SingleStatement sql statement := by
  intro hsingle
  obtain ⟨found, hseparated, hspace⟩ := hsingle.separated
  rw [hstray.separated] at hseparated
  obtain ⟨char, hchar, hother⟩ := hstray.stray
  cases found with
  | none => cases hseparated
  | some found =>
    injection hseparated with hsame
    subst hsame
    rw [hspace tail rfl char hchar] at hother
    cases hother

/-- The scan agrees with the lexical rules of SQL exactly when the text is not an allowed
statement with stray white space behind its separator; no text makes it panic. -/
theorem catalog_scan_agrees_iff (sql : List Char) :
    ((rejectForbiddenKeyword sql ≠ .error .panicked ∧
        rejectTrailingStatement sql ≠ .error .panicked) ∧
      (rejectForbiddenKeyword sql = .ok () → rejectTrailingStatement sql = .ok () →
        ∃ statement, SingleStatement sql statement) ∧
      ((∃ statement, SingleStatement sql statement) → Closed sql →
        rejectTrailingStatement sql = .ok ())) ↔
      ∀ tail, ¬ Stray sql tail := by
  constructor
  · rintro ⟨-, hsound, -⟩ tail hstray
    obtain ⟨hkeyword, htrailing⟩ := hstray.accepted
    obtain ⟨statement, hsingle⟩ := hsound hkeyword htrailing
    exact hstray.not_single statement hsingle
  · intro hstray
    exact ⟨⟨rejectForbiddenKeyword_no_panic, rejectTrailingStatement_no_panic⟩,
      fun hkeyword htrailing => singleStatement_of_accepted hkeyword htrailing hstray,
      fun ⟨statement, hsingle⟩ hclosed => rejectTrailingStatement_of_single hsingle hclosed⟩

/-- `SELECT 1; ` and a vertical tab. -/
def tabbedStatement : List Char :=
  ['S', 'E', 'L', 'E', 'C', 'T', ' ', '1', ';', ' ', Char.ofNat 11]

/-- A vertical tab behind the separator is no white space of SQL. -/
theorem vertical_tab_after_separator :
    ¬ (rejectForbiddenKeyword tabbedStatement = .ok () →
        rejectTrailingStatement tabbedStatement = .ok () →
        ∃ statement, SingleStatement tabbedStatement statement) := by
  have hlexemes : lexemes tabbedStatement =
      [(.word ['S', 'E', 'L', 'E', 'C', 'T'], [' ', '1', ';', ' ', Char.ofNat 11]),
        (.space, ['1', ';', ' ', Char.ofNat 11]), (.word ['1'], [';', ' ', Char.ofNat 11]),
        (.separator, [' ', Char.ofNat 11]), (.space, [Char.ofNat 11]),
        (.symbol (Char.ofNat 11), [])] := by
    decide +kernel
  intro hsound
  have hstray : Stray tabbedStatement [' ', Char.ofNat 11] := by
    refine ⟨⟨['S', 'E', 'L', 'E', 'C', 'T'], ?_, by decide⟩, ?_, ?_, ?_, ?_⟩
    · rw [firstElement, hlexemes]
      rfl
    · rw [Closed, hlexemes]
      decide
    · rw [hlexemes]
      rfl
    · intro char hchar
      rcases List.mem_cons.mp hchar with rfl | hchar
      · rfl
      · rw [List.mem_singleton.mp hchar]
        rfl
    · exact ⟨Char.ofNat 11, List.mem_cons_of_mem _ List.mem_cons_self, rfl⟩
  obtain ⟨hkeyword, htrailing⟩ := hstray.accepted
  obtain ⟨statement, hsingle⟩ := hsound hkeyword htrailing
  exact hstray.not_single statement hsingle

end Krit.Databases.CatalogSql
