import Krit.CatalogSql

/-!
# The catalog scan over lexical elements

Both checks of catalog SQL walk through the bytes of the text.  At the beginning of a
lexical element they find the beginning of the next one, also where an element has
characters of several bytes, and they panic nowhere.
-/

namespace Krit.Databases.CatalogSql

open Utf8 Sql

variable {sql : List Char}

/-! ## Slices -/

theorem length_encode (chars : List Char) : (encode chars).length = size chars := rfl

theorem bytesFrom_position {rest : List Char} (hsuffix : rest <:+ sql) :
    bytesFrom (encode sql) (position sql rest) = .ok (encode rest) := by
  unfold bytesFrom
  rw [length_encode, if_pos position_le, drop_position hsuffix]

theorem strFrom_position {rest : List Char} (hsuffix : rest <:+ sql) :
    strFrom sql (position sql rest) = .ok rest := by
  unfold strFrom
  rw [charsFrom_position hsuffix]

/-- The search for an ASCII byte from a position. -/
theorem search_position {target : Char} (htarget : target.toNat < 128) {rest : List Char}
    (hsuffix : rest <:+ sql) (hmem : target ∈ rest) :
    ∃ found after, (encode rest).findIdx? (fun byte => byte == target.toNat) = some found ∧
      rest.dropWhile (fun char => char != target) = target :: after ∧
      target :: after <:+ sql ∧ position sql after = position sql rest + found + 1 := by
  obtain ⟨after, hsplit, hdrop⟩ := takeWhile_append_of_mem hmem
  have htail : target :: after <:+ sql := by
    refine List.IsSuffix.trans ?_ hsuffix
    rw [← hdrop]
    exact List.dropWhile_suffix _
  refine ⟨_, after, by rw [findIdx?_encode htarget, if_pos hmem], hdrop, htail, ?_⟩
  rw [position_of_cons htail htarget, position_of_append hsuffix hsplit]

/-! ## The end of an element -/

/-- A search ends where the rest of the text begins. -/
def Ends (sql : List Char) {index : ℕ} (result : Scan (After index)) (rest : List Char) : Prop :=
  ∃ hlt : index < position sql rest, result = .ok ⟨position sql rest, hlt⟩

theorem ends_of_eq {index next : ℕ} {rest : List Char} (hlt : index < next)
    (hnext : position sql rest = next) :
    Ends sql (Except.ok ⟨next, hlt⟩ : Scan (After index)) rest := by
  subst hnext
  exact ⟨hlt, rfl⟩

/-- The loop goes on from the end of an element. -/
theorem Ends.bind {index : ℕ} {result : Scan (After index)} {rest : List Char} {α : Type}
    (hends : Ends sql result rest) (next : ℕ → Scan α) :
    (result >>= fun after => next after) = next (position sql rest) := by
  obtain ⟨hlt, hresult⟩ := hends
  rw [hresult]
  rfl

theorem lineEnd_position {rest : List Char} (hsuffix : rest <:+ sql)
    (hindex : position sql rest < (encode sql).length) :
    Ends sql (lineEnd (encode sql) (position sql rest) hindex) (afterLine rest) := by
  unfold lineEnd
  rw [bytesFrom_position hsuffix]
  simp only [bind, Except.bind]
  by_cases hmem : '\n' ∈ rest
  · obtain ⟨found, after, hfound, hdrop, -, hposition⟩ :=
      search_position (by decide) hsuffix hmem
    have hafter : afterLine rest = after := by
      rw [afterLine_eq, hdrop, List.tail_cons]
    rw [hfound, hafter]
    exact ends_of_eq _ hposition
  · have hafter : afterLine rest = [] := by
      rw [afterLine_eq, List.dropWhile_eq_nil_iff.mpr]
      · rfl
      · intro char hchar
        rw [bne_iff_ne]
        exact fun heq => hmem (heq ▸ hchar)
    have hnone := @findIdx?_encode '\n' (by decide) rest
    rw [if_neg hmem] at hnone
    rw [hnone, hafter]
    exact ends_of_eq _ (position_nil sql)

theorem bracketEnd_position {rest : List Char} (hsuffix : rest <:+ sql)
    (hclosed : (afterBracket rest).1 = true) :
    Ends sql (bracketEnd (encode sql) (position sql rest)) (afterBracket rest).2 := by
  rw [afterBracket_eq] at hclosed ⊢
  have hmem : ']' ∈ rest := of_decide_eq_true hclosed
  obtain ⟨found, after, hfound, hdrop, -, hposition⟩ := search_position (by decide) hsuffix hmem
  unfold bracketEnd
  rw [bytesFrom_position hsuffix]
  simp only [bind, Except.bind]
  rw [hfound, hdrop, List.tail_cons]
  exact ends_of_eq _ (by omega)

theorem bracketEnd_of_open {rest : List Char} (hsuffix : rest <:+ sql)
    (hopen : (afterBracket rest).1 = false) :
    bracketEnd (encode sql) (position sql rest) =
      refuse "catalog statement has an unterminated bracketed identifier" := by
  rw [afterBracket_eq] at hopen
  have hmem : ']' ∉ rest := of_decide_eq_false hopen
  have hnone := @findIdx?_encode ']' (by decide) rest
  rw [if_neg hmem] at hnone
  unfold bracketEnd
  rw [bytesFrom_position hsuffix]
  simp only [bind, Except.bind]
  rw [hnone]

/-- A substring search finds the characters that close a block comment. -/
theorem find_close (chars : List Char) :
    ((afterBlock chars).1 = true ∧ ∃ passed, chars = passed ++ '*' :: '/' :: (afterBlock chars).2 ∧
        find ['*', '/'] chars = some (size passed)) ∨
      ((afterBlock chars).1 = false ∧ find ['*', '/'] chars = none) := by
  induction chars with
  | nil => exact Or.inr ⟨rfl, rfl⟩
  | cons char rest ih =>
    rw [afterBlock, find]
    by_cases hclose : char = '*' ∧ rest.head? = some '/'
    · obtain ⟨hchar, hhead⟩ := hclose
      obtain ⟨more, hrest⟩ := List.head?_eq_some_iff.mp hhead
      subst hchar
      subst hrest
      exact Or.inl ⟨rfl, [], rfl, rfl⟩
    · have hprefix : List.isPrefixOf ['*', '/'] (char :: rest) = false := by
        rw [← Bool.not_eq_true, List.isPrefixOf_iff_prefix]
        rintro ⟨more, hmore⟩
        injection hmore with hchar hrest
        refine hclose ⟨hchar.symm, ?_⟩
        rw [← hrest]
        rfl
      rw [if_neg hclose, hprefix, if_neg Bool.false_ne_true]
      rcases ih with ⟨hclosed, passed, hsplit, hfound⟩ | ⟨hopen, hfound⟩
      · refine Or.inl ⟨hclosed, char :: passed, ?_, ?_⟩
        · rw [List.cons_append, ← hsplit]
        · rw [hfound, Option.map_some, size_cons, Nat.add_comm]
      · refine Or.inr ⟨hopen, ?_⟩
        rw [hfound, Option.map_none]

/-- The text after the characters that open a block comment. -/
theorem strFrom_block {rest more : List Char} (hsuffix : rest <:+ sql)
    (hrest : rest = '/' :: '*' :: more) :
    strFrom sql (position sql rest + 2) = .ok more ∧ position sql more = position sql rest + 2 := by
  subst hrest
  have hstar : '*' :: more <:+ sql := (List.suffix_cons _ _).trans hsuffix
  have hmore : more <:+ sql := (List.suffix_cons _ _).trans hstar
  have hposition : position sql more = position sql ('/' :: '*' :: more) + 2 := by
    rw [position_of_cons hstar (by decide), position_of_cons hsuffix (by decide)]
  rw [← hposition]
  exact ⟨strFrom_position hmore, rfl⟩

theorem blockEnd_position {rest more : List Char} (hsuffix : rest <:+ sql)
    (hrest : rest = '/' :: '*' :: more) (hclosed : (afterBlock more).1 = true) :
    Ends sql (blockEnd sql (position sql rest)) (afterBlock more).2 := by
  obtain ⟨hstr, hposition⟩ := strFrom_block hsuffix hrest
  rcases find_close more with ⟨-, passed, hsplit, hfound⟩ | ⟨hopen, -⟩
  · unfold blockEnd
    rw [hstr]
    simp only [bind, Except.bind]
    rw [hfound]
    apply ends_of_eq
    have hmore : more <:+ sql := by
      refine List.IsSuffix.trans ?_ hsuffix
      rw [hrest]
      exact (List.suffix_cons _ _).trans (List.suffix_cons _ _)
    have hpassed : more = (passed ++ ['*', '/']) ++ (afterBlock more).2 := by
      rw [List.append_assoc]
      exact hsplit
    have hsize : size ['*', '/'] = 2 := rfl
    rw [position_of_append hmore hpassed, hposition, size_append, hsize]
    omega
  · rw [hclosed] at hopen
    cases hopen

theorem blockEnd_of_open {rest more : List Char} (hsuffix : rest <:+ sql)
    (hrest : rest = '/' :: '*' :: more) (hopen : (afterBlock more).1 = false) :
    blockEnd sql (position sql rest) =
      refuse "catalog statement has an unterminated block comment" := by
  obtain ⟨hstr, -⟩ := strFrom_block hsuffix hrest
  rcases find_close more with ⟨hclosed, -⟩ | ⟨-, hnone⟩
  · rw [hopen] at hclosed
    cases hclosed
  · unfold blockEnd
    rw [hstr]
    simp only [bind, Except.bind]
    rw [hnone]

/-- The search for the quote that closes a token passes over every doubled one. -/
theorem quoteEnd_position {quote : Char} (hquote : quote.toNat < 128) {rest : List Char}
    (hsuffix : rest <:+ sql) {index : ℕ} (hindex : index = position sql rest) :
    ((afterQuote quote rest).1 = true ∧
        Ends sql (quoteEnd (encode sql) quote.toNat index) (afterQuote quote rest).2) ∨
      ((afterQuote quote rest).1 = false ∧ quoteEnd (encode sql) quote.toNat index =
        refuse "catalog statement has an unterminated quoted literal") := by
  induction hlength : rest.length using Nat.strong_induction_on generalizing rest index with
  | h length ih =>
    rw [quoteEnd, hindex, bytesFrom_position hsuffix]
    by_cases hmem : quote ∈ rest
    · obtain ⟨found, after, hfound, hdrop, htail, hposition⟩ :=
        search_position hquote hsuffix hmem
      have hafterSuffix : after <:+ sql := (List.suffix_cons _ _).trans htail
      have hsplit : afterQuote quote rest = afterQuote quote (quote :: after) := by
        rw [← List.takeWhile_append_dropWhile (p := fun char => char != quote) (l := rest), hdrop]
        refine afterQuote_append _ fun hin => ?_
        have hne := List.mem_takeWhile_imp hin
        simp at hne
      simp only [hfound]
      rw [hsplit, afterQuote_quote]
      by_cases hdoubled : after.head? = some quote
      · have hbyte : (encode sql)[position sql rest + found + 1]? = some quote.toNat := by
          rw [← hposition, byte_position_iff hquote hafterSuffix]
          exact hdoubled
        obtain ⟨more, hmore⟩ := List.head?_eq_some_iff.mp hdoubled
        have hquoted : quote :: more <:+ sql := hmore ▸ hafterSuffix
        have hnext : position sql rest + found + 1 + 1 = position sql more := by
          rw [position_of_cons hquoted hquote, ← hmore, hposition]
        have hshort : more.length < length := by
          have hle := (List.dropWhile_suffix (l := rest) fun char => char != quote).length_le
          rw [hdrop, hmore, hlength] at hle
          simp only [List.length_cons] at hle
          omega
        have hmoreSuffix : more <:+ sql := (List.suffix_cons _ _).trans hquoted
        rw [if_pos hdoubled, dif_pos hbyte, hmore, List.tail_cons]
        rcases ih more.length hshort hmoreSuffix hnext rfl with
          ⟨hclosed, hlt, hend⟩ | ⟨hopen, hend⟩
        · rw [hend]
          exact Or.inl ⟨hclosed, ends_of_eq _ rfl⟩
        · rw [hend]
          exact Or.inr ⟨hopen, rfl⟩
      · have hbyte : (encode sql)[position sql rest + found + 1]? ≠ some quote.toNat := by
          rw [← hposition, Ne, byte_position_iff hquote hafterSuffix]
          exact hdoubled
        rw [if_neg hdoubled, dif_neg hbyte]
        exact Or.inl ⟨rfl, ends_of_eq _ hposition⟩
    · have hnone := findIdx?_encode hquote rest
      rw [if_neg hmem] at hnone
      rw [afterQuote_of_not_mem hmem]
      exact Or.inr ⟨rfl, by simp only [hnone]⟩

/-! ## The scan for separators -/

/-- The byte that begins a character tells the ASCII characters apart. -/
theorem first_byte {char : Char} {rest : List Char} (hsuffix : char :: rest <:+ sql) :
    ∃ hindex : position sql (char :: rest) < (encode sql).length,
      ∀ target : Char, target.toNat < 128 →
        ((encode sql)[position sql (char :: rest)] = target.toNat ↔ char = target) := by
  have hindex : position sql (char :: rest) < (encode sql).length := position_cons_lt hsuffix
  refine ⟨hindex, fun target htarget => ?_⟩
  have hbyte := byte_position_iff htarget hsuffix
  rw [List.getElem?_eq_getElem hindex, Option.some.injEq, List.head?_cons,
    Option.some.injEq] at hbyte
  exact hbyte

/-- The bytes of the character at a position. -/
theorem byte_of_char {char : Char} {rest : List Char} (hsuffix : char :: rest <:+ sql) {offset : ℕ}
    (hoffset : offset < (charBytes char).length) :
    (encode sql)[position sql (char :: rest) + offset]? = some (charBytes char)[offset] := by
  rw [← List.getElem?_drop, drop_position hsuffix, encode_cons,
    List.getElem?_append_left hoffset, List.getElem?_eq_getElem hoffset]

/-- No byte outside ASCII stops the scan. -/
theorem scanSeparator_high (separator : Option ℕ) {index count : ℕ}
    (hhigh : ∀ offset < count, ∃ byte, (encode sql)[index + offset]? = some byte ∧ 128 ≤ byte) :
    scanSeparator sql index separator = scanSeparator sql (index + count) separator := by
  induction count generalizing index with
  | zero => rfl
  | succ count ih =>
    obtain ⟨byte, hbyte, hle⟩ := hhigh 0 (Nat.succ_pos count)
    obtain ⟨hlt, hget⟩ := List.getElem?_eq_some_iff.mp hbyte
    have hstep : scanSeparator sql index separator = scanSeparator sql (index + 1) separator := by
      rw [Nat.add_zero] at hlt
      simp only [Nat.add_zero] at hget
      have hquote : ¬ (byte = '\''.toNat ∨ byte = '"'.toNat ∨ byte = 96) := by
        rintro (heq | heq | heq) <;> subst heq <;> exact absurd hle (by decide)
      have hbracket : byte ≠ '['.toNat := by
        intro heq
        subst heq
        exact absurd hle (by decide)
      have hdash : byte ≠ '-'.toNat := by
        intro heq
        subst heq
        exact absurd hle (by decide)
      have hslash : byte ≠ '/'.toNat := by
        intro heq
        subst heq
        exact absurd hle (by decide)
      have hsemicolon : byte ≠ ';'.toNat := by
        intro heq
        subst heq
        exact absurd hle (by decide)
      rw [scanSeparator, dif_pos hlt]
      simp only [hget]
      rw [if_neg hquote, if_neg hbracket, if_neg fun h => hdash h.1, if_neg fun h => hslash h.1,
        if_neg hsemicolon]
    have hmore := @ih (index + 1) (by
      intro offset hoffset
      have hnext := hhigh (offset + 1) (Nat.succ_lt_succ hoffset)
      rwa [← Nat.add_assoc, Nat.add_right_comm] at hnext)
    rw [hstep, hmore, Nat.add_right_comm, Nat.add_assoc]

/-- A character that no mode of the scan begins with. -/
def Plain (char : Char) (rest : List Char) : Prop :=
  isQuote char = false ∧ char ≠ '[' ∧ ¬ (char = '-' ∧ rest.head? = some '-') ∧
    ¬ (char = '/' ∧ rest.head? = some '*') ∧ char ≠ ';'

/-- The scan at the beginning of a character of ASCII. -/
theorem scanSeparator_ascii {char : Char} {rest : List Char} (hsuffix : char :: rest <:+ sql)
    (hascii : char.toNat < 128) (separator : Option ℕ) :
    scanSeparator sql (position sql (char :: rest)) separator =
      if isQuote char then
        quoteEnd (encode sql) char.toNat (position sql (char :: rest) + 1) >>= fun next =>
          scanSeparator sql next separator
      else if char = '[' then
        bracketEnd (encode sql) (position sql (char :: rest)) >>= fun next =>
          scanSeparator sql next separator
      else if char = '-' ∧ rest.head? = some '-' then
        scanSeparator sql (position sql (afterLine (char :: rest))) separator
      else if char = '/' ∧ rest.head? = some '*' then
        blockEnd sql (position sql (char :: rest)) >>= fun next =>
          scanSeparator sql next separator
      else if char = ';' then
        if separator.isSome then
          refuse "catalog statement must contain exactly one SQL statement"
        else scanSeparator sql (position sql rest) (some (position sql (char :: rest)))
      else scanSeparator sql (position sql rest) separator := by
  obtain ⟨hindex, hbyte⟩ := first_byte hsuffix
  have hself := (hbyte char hascii).mpr rfl
  have hrest : rest <:+ sql := (List.suffix_cons _ _).trans hsuffix
  have hnext := position_of_cons hsuffix hascii
  have hquote : (char = '\'' ∨ char = '"' ∨ char.toNat = 96) ↔ isQuote char = true := by
    have htick : (96 : ℕ) = (Char.ofNat 96).toNat := rfl
    rw [htick, Char.toNat_inj]
    simp [isQuote, or_assoc]
  have hsecond : ∀ target : Char, target.toNat < 128 →
      ((encode sql)[position sql rest]? = some target.toNat ↔ rest.head? = some target) :=
    fun target htarget => byte_position_iff htarget hrest
  rw [scanSeparator, dif_pos hindex]
  simp only [hself, Char.toNat_inj, hquote, hsecond '-' (by decide), hsecond '*' (by decide),
    ← hnext, -Char.reduceToNat]
  congr 3
  exact (lineEnd_position hsuffix hindex).bind fun next => scanSeparator sql next separator

/-- The scan passes over every byte of a plain character. -/
theorem scanSeparator_plain {char : Char} {rest : List Char} (hsuffix : char :: rest <:+ sql)
    (hplain : Plain char rest) (separator : Option ℕ) :
    scanSeparator sql (position sql (char :: rest)) separator =
      scanSeparator sql (position sql rest) separator := by
  by_cases hascii : char.toNat < 128
  · obtain ⟨hquote, hbracket, hline, hblock, hseparator⟩ := hplain
    rw [scanSeparator_ascii hsuffix hascii, hquote, if_neg Bool.false_ne_true, if_neg hbracket,
      if_neg hline, if_neg hblock, if_neg hseparator]
  · have hnext : position sql rest = position sql (char :: rest) + size [char] :=
      position_of_append hsuffix rfl
    have hsize : size [char] = (charBytes char).length := by
      rw [size_cons, size_nil, Nat.add_zero]
    rw [hnext, hsize]
    apply scanSeparator_high
    intro offset hoffset
    exact ⟨_, byte_of_char hsuffix hoffset, le_of_mem_charBytes hascii _ (List.getElem_mem hoffset)⟩

/-- A kind of character without those that open a mode of the scan. -/
theorem plain_of_kind {kind : Char → Bool}
    (hkind : ['\'', '"', Char.ofNat 96, '[', '-', '/', ';'].any kind = false)
    {char : Char} (hchar : kind char = true) (rest : List Char) : Plain char rest := by
  have hne : ∀ target ∈ ['\'', '"', Char.ofNat 96, '[', '-', '/', ';'], char ≠ target := by
    intro target htarget heq
    rw [heq] at hchar
    exact Bool.false_ne_true (hkind.symm.trans (List.any_eq_true.mpr ⟨target, htarget, hchar⟩))
  have hquote : isQuote char = false := by
    simp only [isQuote, Bool.or_eq_false_iff, beq_eq_false_iff_ne]
    exact ⟨⟨hne _ (by simp), hne _ (by simp)⟩, hne _ (by simp)⟩
  exact ⟨hquote, hne _ (by simp), fun h => hne _ (by simp) h.1, fun h => hne _ (by simp) h.1,
    hne _ (by simp)⟩

theorem plain_of_isWordChar {char : Char} (hword : isWordChar char = true) (rest : List Char) :
    Plain char rest := @plain_of_kind isWordChar rfl char hword rest

theorem plain_of_isSpace {char : Char} (hspace : isSpace char = true) (rest : List Char) :
    Plain char rest := @plain_of_kind isSpace rfl char hspace rest

theorem scanSeparator_word {rest : List Char} (hsuffix : rest <:+ sql) (separator : Option ℕ) :
    scanSeparator sql (position sql rest) separator =
      scanSeparator sql (position sql (rest.dropWhile isWordChar)) separator := by
  induction rest with
  | nil => rfl
  | cons char rest ih =>
    by_cases hword : isWordChar char = true
    · rw [List.dropWhile_cons, if_pos hword,
        scanSeparator_plain hsuffix (plain_of_isWordChar hword rest)]
      exact ih ((List.suffix_cons _ _).trans hsuffix)
    · rw [List.dropWhile_cons, if_neg hword]

/-- The check of one element, with the text after the separator found so far. -/
def note (tail : Option (List Char)) : Lexeme × List Char → Scan (Option (List Char))
  | (.quoted false, _) => refuse "catalog statement has an unterminated quoted literal"
  | (.bracketed false, _) => refuse "catalog statement has an unterminated bracketed identifier"
  | (.blockComment false, _) => refuse "catalog statement has an unterminated block comment"
  | (.separator, rest) =>
      if tail.isSome then refuse "catalog statement must contain exactly one SQL statement"
      else .ok (some rest)
  | _ => .ok tail

/-- The separator stands before the text that follows it. -/
def separatorAt (sql tail : List Char) : ℕ := position sql tail - 1

/-- What the scan does at an element is what the check of the element says. -/
theorem scanSeparator_lexeme {char : Char} {rest : List Char} (hsuffix : char :: rest <:+ sql)
    (tail : Option (List Char)) :
    scanSeparator sql (position sql (char :: rest)) (tail.map (separatorAt sql)) =
      note tail (lexeme char rest) >>= fun next =>
        scanSeparator sql (position sql (lexeme char rest).2) (next.map (separatorAt sql)) := by
  have hrest : rest <:+ sql := (List.suffix_cons _ _).trans hsuffix
  unfold lexeme
  split_ifs with hspace hquote hbracket hline hblock hseparator hword
  · exact scanSeparator_plain hsuffix (plain_of_isSpace hspace rest) _
  · have hascii : char.toNat < 128 := by
      simp only [isQuote, Bool.or_eq_true, beq_iff_eq] at hquote
      rcases hquote with (heq | heq) | heq <;> subst heq <;> decide
    rw [scanSeparator_ascii hsuffix hascii, if_pos hquote]
    rcases quoteEnd_position hascii hrest (position_of_cons hsuffix hascii).symm with
      ⟨hclosed, hend⟩ | ⟨hopen, hend⟩
    · simp only [hclosed]
      exact hend.bind fun next => scanSeparator sql next _
    · simp only [hopen, hend]
      rfl
  · subst hbracket
    have hafter : afterBracket ('[' :: rest) = afterBracket rest := by
      rw [afterBracket, if_neg (by decide)]
    rw [scanSeparator_ascii hsuffix (by decide), if_neg hquote, if_pos rfl]
    cases hclosed : (afterBracket rest).1 with
    | true =>
      have hend := bracketEnd_position hsuffix (hafter ▸ hclosed)
      rw [hafter] at hend
      simp only [hclosed]
      exact hend.bind fun next => scanSeparator sql next _
    | false =>
      simp only [bracketEnd_of_open hsuffix (hafter ▸ hclosed), hclosed]
      rfl
  · obtain ⟨hchar, hhead⟩ := hline
    obtain ⟨more, hmore⟩ := List.head?_eq_some_iff.mp hhead
    subst hchar
    subst hmore
    rw [scanSeparator_ascii hsuffix (by decide), if_neg hquote, if_neg hbracket, if_pos ⟨rfl, rfl⟩]
    rfl
  · obtain ⟨hchar, hhead⟩ := hblock
    obtain ⟨more, hmore⟩ := List.head?_eq_some_iff.mp hhead
    subst hchar
    subst hmore
    rw [scanSeparator_ascii hsuffix (by decide), if_neg hquote, if_neg hbracket, if_neg hline,
      if_pos ⟨rfl, rfl⟩]
    cases hclosed : (afterBlock more).1 with
    | true =>
      simp only [List.tail_cons, hclosed]
      exact (blockEnd_position hsuffix rfl hclosed).bind fun next => scanSeparator sql next _
    | false =>
      simp only [List.tail_cons, blockEnd_of_open hsuffix rfl hclosed, hclosed]
      rfl
  · subst hseparator
    rw [scanSeparator_ascii hsuffix (by decide), if_neg hquote, if_neg hbracket, if_neg hline,
      if_neg hblock, if_pos rfl]
    cases tail with
    | some found => rfl
    | none =>
      have hat : separatorAt sql rest = position sql (';' :: rest) := by
        unfold separatorAt
        rw [position_of_cons hsuffix (by decide), Nat.add_sub_cancel]
      change scanSeparator sql (position sql rest) _ =
        scanSeparator sql (position sql rest) (some (separatorAt sql rest))
      rw [hat]
  · rw [scanSeparator_plain hsuffix (plain_of_isWordChar hword rest),
      scanSeparator_word hrest]
    rfl
  · exact scanSeparator_plain hsuffix
      ⟨Bool.eq_false_iff.mpr hquote, hbracket, hline, hblock, hseparator⟩ _

/-- The scan of the text is the check of its elements, one after the other. -/
theorem scanSeparator_lexemes {rest : List Char} (hsuffix : rest <:+ sql)
    (tail : Option (List Char)) :
    scanSeparator sql (position sql rest) (tail.map (separatorAt sql)) =
      (lexemes rest).foldlM note tail >>= fun found => .ok (found.map (separatorAt sql)) := by
  induction rest using lexemes_induction generalizing tail with
  | hnil =>
    rw [lexemes_nil, scanSeparator, dif_neg]
    · rfl
    · rw [position_nil, length_encode]
      exact lt_irrefl _
  | hcons char rest ih =>
    rw [scanSeparator_lexeme hsuffix, lexemes_cons, List.foldlM_cons]
    have hnext : (lexeme char rest).2 <:+ sql :=
      ((lexeme_suffix char rest).trans (List.suffix_cons _ _)).trans hsuffix
    cases note tail (lexeme char rest) with
    | error stop => rfl
    | ok next => exact ih hnext next

end Krit.Databases.CatalogSql
