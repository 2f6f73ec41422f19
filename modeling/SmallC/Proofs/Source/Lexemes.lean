import Mathlib.Data.List.Basic
import Mathlib.Data.List.TakeWhile
import SmallC.Source.Lexeme

/-! Lexemes by their spelling alone: the lexeme that is read is the longest one at the front. -/

namespace SmallC

/-- At least one decimal digit. -/
def Digits (text : List Char) : Prop :=
  text ≠ [] ∧ ∀ character ∈ text, character.isDigit = true

/-- The fraction of a number, which may be left out. -/
inductive Fraction : List Char → Prop where
  /-- No fraction. -/
  | none : Fraction []
  /-- A point and digits. -/
  | some {digits : List Char} (counted : Digits digits) : Fraction ('.' :: digits)

/-- The exponent of a number, which may be left out. -/
inductive Exponent : List Char → Prop where
  /-- No exponent. -/
  | none : Exponent []
  /-- A mark, perhaps a sign, and digits. -/
  | some {mark : Char} {sign digits : List Char} (marked : mark = 'e' ∨ mark = 'E')
    (signed : sign = [] ∨ sign = ['+'] ∨ sign = ['-']) (counted : Digits digits) :
    Exponent (mark :: (sign ++ digits))

/-- What may stand between double quotes: whole escapes, and no quote and no newline besides. -/
inductive QuotedBody : List Char → Prop where
  /-- Nothing. -/
  | nil : QuotedBody []
  /-- A character that stands for itself. -/
  | plain {character : Char} {rest : List Char} (itself : character ∉ ['\\', '"', '\n'])
    (body : QuotedBody rest) : QuotedBody (character :: rest)
  /-- A backslash and a character that may follow it. -/
  | escape {escaped : Char} {rest : List Char} (known : isEscape escaped = true)
    (body : QuotedBody rest) : QuotedBody ('\\' :: escaped :: rest)

/-- The pieces of text that are lexemes, each with its kind. -/
inductive Lexeme : TokenKind → List Char → Prop where
  /-- A name, which is no keyword. -/
  | name {first : Char} {rest : List Char} (starts : isNameStart first = true)
    (parts : ∀ character ∈ rest, isNamePart character = true)
    (plain : TokenKind.keyword? (String.ofList (first :: rest)) = none) :
    Lexeme .identifier (first :: rest)
  /-- A keyword. -/
  | keyword {kind : TokenKind} {text : List Char}
    (listed : TokenKind.keyword? (String.ofList text) = some kind) : Lexeme kind text
  /-- A whole number. -/
  | integer {text : List Char} (whole : Digits text) : Lexeme .integer text
  /-- A number with a fraction or an exponent. -/
  | real {whole part power : List Char} (counted : Digits whole) (fraction : Fraction part)
    (exponent : Exponent power) (either : part ≠ [] ∨ power ≠ []) :
    Lexeme .real (whole ++ (part ++ power))
  /-- A character between quotes. -/
  | character {character : Char} (itself : character ∉ ['\\', '\x27', '\n']) :
    Lexeme .character ['\x27', character, '\x27']
  /-- An escape between quotes. -/
  | escape {escaped : Char} (known : isEscape escaped = true) :
    Lexeme .character ['\x27', '\\', escaped, '\x27']
  /-- A text between double quotes. -/
  | string {body : List Char} (quoted : QuotedBody body) : Lexeme .string ('"' :: (body ++ ['"']))
  /-- A sign of the language. -/
  | sign {kind : TokenKind} {text : List Char} (listed : (text, kind) ∈ signs) : Lexeme kind text

/-- No lexeme ends a source. -/
theorem Lexeme.ne_done {kind : TokenKind} {piece : List Char} (lexeme : Lexeme kind piece) :
    kind ≠ .done := by
  have listing : ∀ entry ∈ signs, entry.2 ≠ .done := by decide
  cases lexeme with
  | keyword listed =>
    rintro rfl
    unfold TokenKind.keyword? at listed
    split at listed <;> cases listed
  | sign listed => exact listing _ listed
  | _ => nofun

/-! Runs of characters. -/

/-- A run that passes the test is cut off whole, with what continues it. -/
theorem splitWhile_run {test : Char → Bool} {run : List Char}
    (passes : ∀ character ∈ run, test character = true) (text : List Char) :
    splitWhile test (run ++ text) = (run ++ (splitWhile test text).1, (splitWhile test text).2) := by
  unfold splitWhile
  rw [List.takeWhile_append_of_pos passes, List.dropWhile_append_of_pos passes]

/-- Nothing is cut off where the first character fails the test. -/
theorem splitWhile_stop {test : Char → Bool} {first : Char} (fails : test first = false)
    (rest : List Char) : splitWhile test (first :: rest) = ([], first :: rest) := by
  simp [splitWhile, fails]

/-- All of a run passes the test. -/
theorem passes_splitWhile (test : Char → Bool) (text : List Char) :
    ∀ character ∈ (splitWhile test text).1, test character = true :=
  fun _ => List.mem_takeWhile_imp

/-- A run of digits is a whole number as soon as it is not empty. -/
theorem digits_splitWhile {text : List Char} (some : (splitWhile Char.isDigit text).1 ≠ []) :
    Digits (splitWhile Char.isDigit text).1 :=
  ⟨some, passes_splitWhile _ _⟩

/-! What is read is a lexeme. -/

theorem fraction_sound (text : List Char) : Fraction (fraction text).1 := by
  -- A point that no digit follows is left to the next lexeme.
  unfold fraction
  split
  · dsimp only
    split
    · exact .none
    · next some => exact .some (digits_splitWhile (by simpa using some))
  · exact .none

theorem exponent_sound (text : List Char) : Exponent (exponent text).1 := by
  have signed (text : List Char) :
      (sign text).1 = [] ∨ (sign text).1 = ['+'] ∨ (sign text).1 = ['-'] := by
    unfold sign
    split <;> simp
  -- A mark is taken with its sign only if digits follow, and is left alone otherwise.
  unfold exponent
  split
  · dsimp only
    split
    · next found =>
      simp only [Bool.and_eq_true, Bool.or_eq_true, decide_eq_true_eq, Bool.not_eq_true',
        List.isEmpty_eq_false_iff] at found
      exact .some found.1 (signed _) (digits_splitWhile found.2)
    · exact .none
  · exact .none

theorem number?_sound {text : List Char} {kind : TokenKind} {cut : Cut}
    (found : number? text = some (kind, cut)) : Lexeme kind cut.1 := by
  unfold number? at found
  dsimp only at found
  split at found
  · cases found
  · next some =>
    cases found
    have whole := digits_splitWhile (by simpa using some)
    -- The number is whole exactly when it has neither a fraction nor an exponent.
    split
    · next plain =>
      simp only [Bool.and_eq_true, List.isEmpty_iff] at plain
      rw [plain.1, plain.2, List.append_nil, List.append_nil]
      exact .integer whole
    · next extra =>
      refine .real whole (fraction_sound _) (exponent_sound _) ?_
      rw [Bool.and_eq_true, List.isEmpty_iff, List.isEmpty_iff, not_and_or] at extra
      exact extra

theorem throughQuote_sound {text : List Char} {cut : Cut} (found : throughQuote text = some cut) :
    ∃ body, QuotedBody body ∧ cut.1 = body ++ ['"'] := by
  -- The search goes by escapes and by single characters, as the body is made of them.
  fun_induction throughQuote text generalizing cut with
  | case1 => cases found
  | case2 rest =>
    cases found
    exact ⟨[], .nil, rfl⟩
  | case3 escaped rest known ih =>
    obtain ⟨inner, step, rfl⟩ := Option.map_eq_some_iff.mp found
    obtain ⟨body, quoted, same⟩ := ih step
    exact ⟨_, .escape known quoted, by simp [same]⟩
  | case4 => cases found
  | case5 => cases found
  | case6 character rest unquoted _ plain ih =>
    obtain ⟨inner, step, rfl⟩ := Option.map_eq_some_iff.mp found
    obtain ⟨body, quoted, same⟩ := ih step
    have itself : character ∉ ['\\', '"', '\n'] := by
      simp only [Bool.or_eq_true, decide_eq_true_eq, not_or] at plain
      simp [plain, show character ≠ '"' from unquoted]
    exact ⟨_, .plain itself quoted, by simp [same]⟩

theorem word?_sound {text : List Char} {cut : Cut} (found : word? text = some cut) :
    Lexeme ((TokenKind.keyword? (String.ofList cut.1)).getD .identifier) cut.1 := by
  unfold word? at found
  split at found
  · next first rest =>
    split at found
    · next starts =>
      cases found
      cases known : TokenKind.keyword? (String.ofList (first :: (splitWhile isNamePart rest).1)) with
      | none => exact .name starts (passes_splitWhile _ _) known
      | some kind => exact .keyword known
    · cases found
  · cases found

theorem quotedCharacter?_sound {text : List Char} {cut : Cut}
    (found : quotedCharacter? text = some cut) : Lexeme .character ('\x27' :: cut.1) := by
  unfold quotedCharacter? at found
  split at found
  · split at found
    · next known =>
      cases found
      exact .escape known
    · cases found
  · split at found
    · cases found
    · next itself =>
      cases found
      exact .character (by simpa using itself)
  · cases found

/-- Whatever is read as a lexeme is one of the kind that is told. -/
theorem lexeme?_sound {text : List Char} {kind : TokenKind} {cut : Cut}
    (found : lexeme? text = .ok (kind, cut)) : Lexeme kind cut.1 := by
  -- Words are tried first, then numbers, quotes and signs; each reader is sound for itself.
  unfold lexeme? at found
  split at found
  · next word spelled =>
    cases found
    exact word?_sound spelled
  · split at found
    · next counted =>
      cases found
      exact number?_sound counted
    · split at found
      · split at found
        · next quoted =>
          cases found
          exact quotedCharacter?_sound quoted
        · cases found
      · split at found
        · next quoted =>
          cases found
          obtain ⟨body, whole, same⟩ := throughQuote_sound quoted
          exact same ▸ .string whole
        · cases found
      · split at found
        · next signed =>
          cases found
          obtain ⟨entry, listed, matched⟩ := List.exists_of_findSome?_eq_some signed
          obtain ⟨rest, _, same⟩ := Option.map_eq_some_iff.mp matched
          cases same
          exact .sign listed
        · cases found

/-! A lexeme at the front is read, or a longer one. -/

/-- From a text a lexeme is read that is the given piece of the given kind, or longer. -/
def ReadsAtLeast (kind : TokenKind) (piece text : List Char) : Prop :=
  ∃ found cut, lexeme? text = .ok (found, cut) ∧
    (cut.1 = piece ∧ found = kind ∨ piece.length < cut.1.length)

/-- Keywords are spelled like names. -/
theorem keyword?_spelled {text : List Char} {kind : TokenKind}
    (listed : TokenKind.keyword? (String.ofList text) = some kind) :
    ∃ first rest, text = first :: rest ∧ isNameStart first = true ∧
      ∀ character ∈ rest, isNamePart character = true := by
  have spelled (word : String) (same : String.ofList text = word) : text = word.toList := by
    rw [← same, String.toList_ofList]
  -- There are eleven keywords, and each is checked letter by letter.
  unfold TokenKind.keyword? at listed
  split at listed
  all_goals first
    | cases listed; done
    | next same => exact ⟨_, _, spelled _ same, rfl, List.all_eq_true.mp rfl⟩

/-- A word is read whole, with what continues it. -/
theorem reads_word {first : Char} {rest : List Char} (starts : isNameStart first = true)
    (parts : ∀ character ∈ rest, isNamePart character = true) (text : List Char) :
    ReadsAtLeast ((TokenKind.keyword? (String.ofList (first :: rest))).getD .identifier)
      (first :: rest) (first :: rest ++ text) := by
  have read : word? (first :: rest ++ text) =
      some (first :: (rest ++ (splitWhile isNamePart text).1), (splitWhile isNamePart text).2) := by
    rw [List.cons_append, word?, if_pos starts, splitWhile_run parts]
  -- Either the word ends here, or more letters make it longer.
  refine ⟨_, _, by unfold lexeme?; rw [read], ?_⟩
  cases more : (splitWhile isNamePart text).1 with
  | nil => exact .inl (by simp)
  | cons next others => exact .inr (by simp)

/-- A digit starts no name. -/
theorem isNameStart_digit {character : Char} (digit : character.isDigit = true) :
    isNameStart character = false := by
  have below : character.toNat ≤ 57 := (Char.isDigit_iff_toNat.mp digit).2
  -- Letters and the underscore stand above the digits.
  have upper : character.isUpper = false :=
    decide_eq_false fun least => absurd (Nat.le_trans least.1 below) (by decide)
  have lower : character.isLower = false := Bool.and_eq_false_iff.mpr
    (.inl (decide_eq_false fun least => absurd (Nat.le_trans least below) (by decide)))
  have letter : character.isAlpha = false := Bool.or_eq_false_iff.mpr ⟨upper, lower⟩
  have other : character ≠ '_' := by
    rintro rfl
    cases digit
  simp [isNameStart, letter, other]

theorem fraction_run {digits : List Char} (counted : Digits digits) (text : List Char) :
    fraction ('.' :: (digits ++ text)) =
      ('.' :: (digits ++ (splitWhile Char.isDigit text).1), (splitWhile Char.isDigit text).2) := by
  simp [fraction, splitWhile_run counted.2, counted.1]

theorem exponent_run {mark : Char} {sign digits : List Char} (marked : mark = 'e' ∨ mark = 'E')
    (signed : sign = [] ∨ sign = ['+'] ∨ sign = ['-']) (counted : Digits digits)
    (text : List Char) :
    exponent (mark :: (sign ++ (digits ++ text))) =
      (mark :: (sign ++ (digits ++ (splitWhile Char.isDigit text).1)),
        (splitWhile Char.isDigit text).2) := by
  have split : SmallC.sign (sign ++ (digits ++ text)) = (sign, digits ++ text) := by
    -- Without a sign the first digit might be taken for one, but no digit is.
    rcases signed with rfl | rfl | rfl
    · obtain ⟨some, all⟩ := counted
      cases digits with
      | nil => cases some rfl
      | cons first rest =>
        have digit := all first (by simp)
        unfold SmallC.sign
        split
        · next same =>
          rw [(List.cons.inj same).1] at digit
          cases digit
        · next same =>
          rw [(List.cons.inj same).1] at digit
          cases digit
        · rfl
    · rfl
    · rfl
  simp [exponent, split, splitWhile_run counted.2, counted.1, marked]

/-- A text that starts with digits starts with a number. -/
theorem lexeme?_run {whole : List Char} (counted : Digits whole) (text : List Char) :
    let more := splitWhile Char.isDigit text
    let part := fraction more.2
    let power := exponent part.2
    lexeme? (whole ++ text) = .ok (if part.1.isEmpty && power.1.isEmpty then .integer else .real,
      (whole ++ more.1) ++ (part.1 ++ power.1), power.2) := by
  have wordless : word? (whole ++ text) = none := by
    cases whole with
    | nil => cases counted.1 rfl
    | cons first rest => simp [word?, isNameStart_digit (counted.2 first (by simp))]
  simp [lexeme?, wordless, number?, splitWhile_run counted.2, counted.1]

/-- A whole number is read, or a number that continues it. -/
theorem reads_integer {whole : List Char} (counted : Digits whole) (text : List Char) :
    ReadsAtLeast .integer whole (whole ++ text) := by
  -- Further digits, a fraction or an exponent would each make the number longer.
  refine ⟨_, _, lexeme?_run counted text, ?_⟩
  cases (splitWhile Char.isDigit text).1 with
  | cons => exact .inr (by simp)
  | nil =>
    cases (fraction (splitWhile Char.isDigit text).2).1 with
    | cons => exact .inr (by simp)
    | nil =>
      cases (exponent (fraction (splitWhile Char.isDigit text).2).2).1 with
      | cons => exact .inr (by simp)
      | nil => exact .inl (by simp)

/-- A number with a fraction or an exponent is read, or a number that continues it. -/
theorem reads_real {whole part power : List Char} (counted : Digits whole)
    (fractional : Fraction part) (raised : Exponent power) (either : part ≠ [] ∨ power ≠ [])
    (text : List Char) :
    ReadsAtLeast .real (whole ++ (part ++ power)) (whole ++ (part ++ (power ++ text))) := by
  have point : Char.isDigit '.' = false := by decide
  have stop {mark : Char} (marked : mark = 'e' ∨ mark = 'E') (rest : List Char) :
      splitWhile Char.isDigit (mark :: rest) = ([], mark :: rest) :=
    splitWhile_stop (by rcases marked with rfl | rfl <;> decide) rest
  refine ⟨_, _, lexeme?_run counted _, ?_⟩
  -- An exponent ends the digits before it, and so does a fraction.
  cases fractional with
  | none =>
    cases raised with
    | none => simp at either
    | @some mark sign digits marked signed follows =>
      have unpointed (rest : List Char) : fraction (mark :: rest) = ([], mark :: rest) := by
        rcases marked with rfl | rfl <;> rfl
      simp only [List.nil_append, List.cons_append, List.append_assoc, stop marked, unpointed,
        exponent_run marked signed follows]
      cases (splitWhile Char.isDigit text).1 <;> simp
  | @some digits follows =>
    simp only [List.cons_append, splitWhile_stop point, fraction_run follows]
    cases raised with
    | none =>
      simp only [List.nil_append]
      cases (splitWhile Char.isDigit text).1 with
      | cons => exact .inr (by simp)
      | nil =>
        cases (exponent (splitWhile Char.isDigit text).2).1 <;> simp
    | @some mark sign exponents marked signed raised =>
      simp only [List.cons_append, List.append_assoc, stop marked,
        exponent_run marked signed raised]
      cases (splitWhile Char.isDigit text).1 <;> simp

/-- Whatever stands in single quotes is read. -/
theorem lexeme?_character {inner : List Char} {cut : Cut}
    (read : quotedCharacter? inner = some cut) :
    lexeme? ('\x27' :: inner) = .ok (.character, '\x27' :: cut.1, cut.2) := by
  have wordless : word? ('\x27' :: inner) = none := rfl
  have numberless : number? ('\x27' :: inner) = none := rfl
  simp [lexeme?, wordless, numberless, read]

theorem quotedCharacter?_plain {character : Char} (itself : character ∉ ['\\', '\x27', '\n'])
    (text : List Char) :
    quotedCharacter? (character :: '\x27' :: text) = some ([character, '\x27'], text) := by
  have unescaped : character ≠ '\\' := fun same => itself (by simp [same])
  rw [quotedCharacter?, if_neg (by simpa using itself)]
  exact fun _ same => absurd same unescaped

/-- The quote that closes a body is found. -/
theorem throughQuote_complete {body : List Char} (quoted : QuotedBody body) (text : List Char) :
    throughQuote (body ++ '"' :: text) = some (body ++ ['"'], text) := by
  induction quoted with
  | nil => rfl
  | @plain character rest itself _ ih =>
    simp only [List.mem_cons, List.not_mem_nil, or_false, not_or] at itself
    rw [List.cons_append, throughQuote, ih, if_neg (by simp [itself])]
    · rfl
    · exact itself.2.1
    · exact fun _ _ same => absurd same itself.1
  | escape known _ ih =>
    rw [List.cons_append, List.cons_append, throughQuote, if_pos known, ih]
    rfl

theorem reads_string {body : List Char} (quoted : QuotedBody body) (text : List Char) :
    lexeme? ('"' :: (body ++ '"' :: text)) = .ok (.string, '"' :: (body ++ ['"']), text) := by
  have wordless (inner : List Char) : word? ('"' :: inner) = none := rfl
  have numberless (inner : List Char) : number? ('"' :: inner) = none := rfl
  simp [lexeme?, wordless, numberless, throughQuote_complete quoted text]

/-- What starts with a sign has the first listed sign that it starts with. -/
theorem lexeme?_sign {entry : List Char × TokenKind} (listed : entry ∈ signs) (text : List Char) :
    lexeme? (entry.1 ++ text) = match sign? (entry.1 ++ text) with
      | some found => .ok found
      | none => .error (.unexpected ((entry.1 ++ text).headD ' ')) := by
  have starts : ∀ entry ∈ signs, entry.1 ≠ [] ∧ entry.1.all fun first =>
      !isNameStart first && !first.isDigit && first != '\x27' && first != '"' := by decide
  -- No sign starts like a word, a number or a quote, so only the list of signs is left.
  obtain ⟨some, each⟩ := starts entry listed
  obtain ⟨first, rest, spelled⟩ := List.exists_cons_of_ne_nil some
  obtain ⟨⟨⟨nameless, digitless⟩, unquoted⟩, unquotedBoth⟩ :
      ((isNameStart first = false ∧ first.isDigit = false) ∧ first ≠ '\x27') ∧ first ≠ '"' := by
    simpa using List.all_eq_true.mp each first (by simp [spelled])
  have wordless : word? (first :: (rest ++ text)) = none := by simp [word?, nameless]
  have numberless : number? (first :: (rest ++ text)) = none := by
    simp [number?, splitWhile_stop digitless]
  rw [spelled, List.cons_append]
  simp only [lexeme?, wordless, numberless]
  split
  · next same => exact absurd (List.cons.inj same).1 unquoted
  · next same => exact absurd (List.cons.inj same).1 unquotedBoth
  · rfl

/-- No listed sign begins a later one. -/
theorem pairwise_signs : signs.Pairwise fun early late => ¬ early.1 <+: late.1 := by
  decide

/-- A sign is read, or a longer one. -/
theorem reads_sign {kind : TokenKind} {piece : List Char} (listed : (piece, kind) ∈ signs)
    (text : List Char) : ReadsAtLeast kind piece (piece ++ text) := by
  have begins : piece.isPrefixOf? (piece ++ text) = some text :=
    List.isPrefixOf?_eq_some_iff_append_eq.mpr rfl
  cases read : sign? (piece ++ text) with
  | none =>
    have missed := List.findSome?_eq_none_iff.mp read _ listed
    simp [begins] at missed
  | some found =>
    obtain ⟨other, cut⟩ := found
    refine ⟨other, cut, by rw [lexeme?_sign listed, read], ?_⟩
    -- The piece stands in the list before, at or behind the sign that was found.
    obtain ⟨early, entry, late, split, matched, missed⟩ := List.findSome?_eq_some_iff.mp read
    obtain ⟨rest, found, same⟩ := Option.map_eq_some_iff.mp matched
    cases same
    have around : entry.1 <+: piece ++ text := ⟨rest, List.isPrefixOf?_eq_some_iff_append_eq.mp found⟩
    have order := pairwise_signs
    rw [split] at order listed
    rcases List.mem_append.mp listed with before | after
    · -- A sign that stands before it would have been found.
      have absent := missed _ before
      simp [begins] at absent
    · rcases List.mem_cons.mp after with rfl | after
      · exact .inl ⟨rfl, rfl⟩
      · -- A sign behind it is shorter, for both begin the text and the found one does not begin it.
        have apart : ¬ entry.1 <+: piece :=
          (List.pairwise_cons.mp (List.pairwise_append.mp order).2.1).1 _ after
        have inside : piece <+: entry.1 :=
          (List.prefix_or_prefix_of_prefix (List.prefix_append piece text) around).resolve_right apart
        refine .inr (Nat.lt_of_le_of_ne inside.length_le fun same => apart ?_)
        simp only [inside.eq_of_length same, List.prefix_rfl]

/-- Where a lexeme is at the front of a text, it is read, or a longer one is. -/
theorem lexeme?_complete {kind : TokenKind} {piece : List Char} (lexeme : Lexeme kind piece)
    (text : List Char) : ReadsAtLeast kind piece (piece ++ text) := by
  -- Quoted lexemes and signs are read as they are; a word or a number may go on in the text behind
  -- it.
  cases lexeme with
  | name starts parts plain =>
    have read := reads_word starts parts text
    rwa [plain] at read
  | keyword listed =>
    obtain ⟨first, rest, rfl, starts, parts⟩ := keyword?_spelled listed
    have read := reads_word starts parts text
    rwa [listed] at read
  | integer whole => exact reads_integer whole text
  | real counted fractional raised either =>
    simpa [List.append_assoc] using reads_real counted fractional raised either text
  | character itself =>
    exact ⟨_, _, lexeme?_character (quotedCharacter?_plain itself text), .inl ⟨rfl, rfl⟩⟩
  | escape known =>
    have read : quotedCharacter? ('\\' :: _ :: '\x27' :: text) = _ := if_pos known
    exact ⟨_, _, lexeme?_character read, .inl ⟨rfl, rfl⟩⟩
  | string quoted =>
    have read := reads_string quoted text
    exact ⟨_, _, by simpa using read, .inl ⟨rfl, rfl⟩⟩
  | sign listed => exact reads_sign listed text

/-- A lexeme at the front of a text, with what follows it: the longest one there is. -/
structure Munch (kind : TokenKind) (piece rest : List Char) : Prop where
  /-- The piece is a lexeme of the kind. -/
  lexeme : Lexeme kind piece
  /-- It is of no other kind. -/
  kind : ∀ {other}, Lexeme other piece → other = kind
  /-- No longer piece at the front is a lexeme. -/
  longest : ∀ {other longer}, Lexeme other longer → longer <+: piece ++ rest →
    longer.length ≤ piece.length

/-- Exactly the longest lexeme at the front of a text is read. -/
theorem lexeme?_eq_ok {kind : TokenKind} {piece rest : List Char} :
    lexeme? (piece ++ rest) = .ok (kind, piece, rest) ↔ Munch kind piece rest := by
  constructor
  · -- Every lexeme at the front is read or outdone, so what is read is the longest.
    intro read
    have atLeast {other : TokenKind} {longer : List Char} (lexeme : Lexeme other longer)
        (front : longer <+: piece ++ rest) : piece = longer ∧ kind = other ∨
          longer.length < piece.length := by
      obtain ⟨tail, split⟩ := front
      obtain ⟨found, cut, known, reaches⟩ := lexeme?_complete lexeme tail
      rw [split, read] at known
      cases known
      exact reaches
    refine ⟨lexeme?_sound read, fun lexeme => ?_, fun lexeme front => ?_⟩
    · rcases atLeast lexeme (List.prefix_append _ _) with ⟨-, same⟩ | shorter
      · exact same.symm
      · exact absurd shorter (Nat.lt_irrefl _)
    · rcases atLeast lexeme front with ⟨rfl, -⟩ | shorter
      · exact Nat.le_refl _
      · exact Nat.le_of_lt shorter
  · -- Nothing outdoes the longest lexeme, so it is what is read.
    intro munch
    obtain ⟨found, cut, read, reaches⟩ := lexeme?_complete munch.lexeme rest
    have whole := (lexeme?_append read).1
    have bounded := munch.longest (lexeme?_sound read) ⟨cut.2, whole⟩
    obtain ⟨same, rfl⟩ := reaches.resolve_right (Nat.not_lt.mpr bounded)
    obtain ⟨front, after⟩ := cut
    cases same
    obtain rfl : after = rest := List.append_cancel_left whole
    exact read

end SmallC
