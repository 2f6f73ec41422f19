import SmallC.Proofs.Report.Solid

/-! Layout: the tokens of a source are read again from their texts, whatever blanks and comments set
them apart. -/

namespace SmallC

/-- Blanks and closed comments one after another, without comments that end with their line. -/
inductive Spacing : List Char → Prop where
  /-- Nothing. -/
  | nil : Spacing []
  /-- A space, a tab, a carriage return or a newline in front. -/
  | blank {character : Char} {rest : List Char} (separates : isBlank character = true)
    (further : Spacing rest) : Spacing (character :: rest)
  /-- A comment up to the first mark that closes it in front. -/
  | block {body rest : List Char} (first : ¬ ['*', '/'] <:+: body ++ ['*'])
    (further : Spacing rest) : Spacing ('/' :: '*' :: (body ++ '*' :: '/' :: rest))

/-- What separates two tokens whatever they are: a blank, and any spacing behind it. -/
inductive Separator : List Char → Prop where
  /-- The blank keeps the token before it from going on, and from opening a comment. -/
  | mk {character : Char} {rest : List Char} (separates : isBlank character = true)
    (further : Spacing rest) : Separator (character :: rest)

/-- Texts in order with a separator between each and the next. -/
inductive Joined : List String → List Char → Prop where
  /-- No text. -/
  | nil : Joined [] []
  /-- One text alone. -/
  | one (text : String) : Joined [text] text.toList
  /-- One text before others. -/
  | cons {text next : String} {others : List String} {separator rest : List Char}
    (apart : Separator separator) (further : Joined (next :: others) rest) :
    Joined (text :: next :: others) (text.toList ++ (separator ++ rest))

/-- What a token is without its place. -/
def Token.spelling (token : Token) : TokenKind × String :=
  (token.kind, token.text)

/-! Separators are gaps. -/

theorem Spacing.gaps {spacing : List Char} (spaced : Spacing spacing) (text : List Char) :
    Gaps spacing text := by
  induction spaced with
  | nil => exact .nil
  | blank separates _ ih => exact .cons (.blank separates) ih
  | @block body rest first _ ih =>
    have comment : Gap ('/' :: '*' :: (body ++ ['*', '/'])) (rest ++ text) := .block first
    simpa using Gaps.cons comment ih

theorem Separator.spacing {separator : List Char} (apart : Separator separator) :
    Spacing separator := by
  cases apart with
  | mk separates further => exact .blank separates further

/-- Gaps in front belong to the gap before the first token. -/
theorem Tiled.gaps {before gaps text : List Char} {tokens : List Token} (apart : Gaps gaps text)
    (tiled : Tiled (before ++ gaps) text tokens) : Tiled before (gaps ++ text) tokens := by
  induction apart generalizing before with
  | nil => simpa using tiled
  | cons first _ ih =>
    rw [List.append_assoc]
    refine .gap first (ih ?_)
    rwa [List.append_assoc]

/-! Lexemes before a blank. -/

/-- Whether the character is neither a blank nor a quote. -/
def isPlain (character : Char) : Bool :=
  !([' ', '\t', '\r', '\n', '\x27', '"'].contains character)

/-- Letters, digits and the underscore are plain. -/
theorem isPlain_of_part {character : Char} (part : isNamePart character = true) :
    isPlain character = true := by
  by_contra other
  simp only [isPlain, Bool.not_eq_true', Bool.not_eq_false, List.contains_eq_mem, decide_eq_true_eq,
    List.mem_cons, List.not_mem_nil, or_false] at other
  rcases other with rfl | rfl | rfl | rfl | rfl | rfl <;> cases part

/-- No blank is plain. -/
theorem isPlain_blank {character : Char} (blank : isBlank character = true) :
    isPlain character = false := by
  simp only [isBlank, List.contains_eq_mem, decide_eq_true_eq, List.mem_cons, List.not_mem_nil,
    or_false] at blank
  rcases blank with rfl | rfl | rfl | rfl <;> rfl

theorem Digits.plain {digits : List Char} (counted : Digits digits) :
    ∀ character ∈ digits, isPlain character = true :=
  fun character member => isPlain_of_part (counted.parts character member)

theorem Fraction.plain {part : List Char} (fraction : Fraction part) :
    ∀ character ∈ part, isPlain character = true := by
  cases fraction with
  | none => exact List.forall_mem_nil _
  | some digits => exact List.forall_mem_cons.mpr ⟨rfl, digits.plain⟩

theorem Exponent.plain {power : List Char} (exponent : Exponent power) :
    ∀ character ∈ power, isPlain character = true := by
  cases exponent with
  | none => exact List.forall_mem_nil _
  | @some mark sign digits marked signed follows =>
    have front : ∀ character ∈ mark :: sign, isPlain character = true := by
      rcases marked with rfl | rfl <;> rcases signed with rfl | rfl | rfl <;>
        exact List.all_eq_true.mp rfl
    exact List.forall_mem_append.mpr ⟨front, follows.plain⟩

/-- A lexeme in quotes is read whatever follows it, and in any other lexeme every character is
plain. -/
theorem Lexeme.quoted_or_plain {kind : TokenKind} {piece : List Char} (lexeme : Lexeme kind piece) :
    ((∃ quote ∈ piece.head?, isPlain quote = false) ∧
      ∀ text, lexeme? (piece ++ text) = .ok (kind, piece, text)) ∨
    ∀ character ∈ piece, isPlain character = true := by
  have listing : ∀ entry ∈ signs, entry.1.all isPlain = true := by decide
  -- Names and keywords are both a letter and then letters and digits.
  have word {first : Char} {rest : List Char} (starts : isNameStart first = true)
      (parts : ∀ character ∈ rest, isNamePart character = true) :
      ∀ character ∈ first :: rest, isPlain character = true :=
    List.forall_mem_cons.mpr ⟨isPlain_of_part (isNameStart_part starts),
      fun character member => isPlain_of_part (parts character member)⟩
  cases lexeme with
  | character itself =>
    exact .inl ⟨⟨_, rfl, rfl⟩, fun text => lexeme?_character (quotedCharacter?_plain itself text)⟩
  | @escape escaped known =>
    have read (text : List Char) :
        quotedCharacter? ('\\' :: escaped :: '\x27' :: text) = some (['\\', escaped, '\x27'], text) :=
      if_pos known
    exact .inl ⟨⟨_, rfl, rfl⟩, fun text => lexeme?_character (read text)⟩
  | string quoted =>
    exact .inl ⟨⟨_, rfl, rfl⟩, fun text => by simpa using reads_string quoted text⟩
  | name starts parts => exact .inr (word starts parts)
  | keyword listed =>
    obtain ⟨first, rest, rfl, starts, parts⟩ := keyword?_spelled listed
    exact .inr (word starts parts)
  | integer whole => exact .inr whole.plain
  | real counted fraction exponent =>
    exact .inr (List.forall_mem_append.mpr
      ⟨counted.plain, List.forall_mem_append.mpr ⟨fraction.plain, exponent.plain⟩⟩)
  | sign listed => exact .inr (List.all_eq_true.mp (listing _ listed))

/-- Nothing, or a text that a blank starts. -/
def Parted (text : List Char) : Prop :=
  ∀ character ∈ text.head?, isBlank character = true

theorem Separator.parted {separator : List Char} (apart : Separator separator) (text : List Char) :
    Parted (separator ++ text) := by
  cases apart with
  | mk separates => simpa [Parted] using separates

/-- What is longer than a piece goes on with the first character behind it. -/
theorem longer_front {longer piece rest : List Char} (front : longer <+: piece ++ rest)
    (beyond : piece.length < longer.length) :
    ∃ first more, first ∈ rest.head? ∧ longer = piece ++ first :: more := by
  -- Both are fronts of one text, so the shorter one is a front of the longer one.
  obtain ⟨more, rfl⟩ : piece <+: longer :=
    List.prefix_of_prefix_length_le (List.prefix_append _ _) front (Nat.le_of_lt beyond)
  obtain ⟨behind, split⟩ := front
  rw [List.append_assoc] at split
  obtain rfl := List.append_cancel_left split
  cases more with
  | nil => simp at beyond
  | cons first more => exact ⟨first, more, rfl, rfl⟩

/-- Before a blank and before the end every lexeme is the longest there is. -/
theorem Munch.parted {kind : TokenKind} {piece rest : List Char} (munch : Munch kind piece rest)
    {text : List Char} (parted : Parted text) : Munch kind piece text := by
  rcases munch.lexeme.quoted_or_plain with ⟨-, read⟩ | plain
  · exact lexeme?_eq_ok.mp (read text)
  · refine ⟨munch.lexeme, munch.kind, fun {other longer} lexeme front => ?_⟩
    by_contra beyond
    obtain ⟨first, more, starts, rfl⟩ := longer_front front (by omega)
    -- A longer one would begin like this one, so it would be plain too, and hold a blank.
    rcases lexeme.quoted_or_plain with ⟨⟨quote, leads, unplain⟩, -⟩ | all
    · rw [List.head?_append_of_ne_nil _ munch.lexeme.solid.ne_nil] at leads
      rw [plain quote (List.mem_of_mem_head? leads)] at unplain
      cases unplain
    · have blank := isPlain_blank (parted first starts)
      rw [all first (by simp)] at blank
      cases blank

/-- A slash begins no other lexeme than the sign. -/
theorem Lexeme.slash {kind : TokenKind} {rest : List Char} (lexeme : Lexeme kind ('/' :: rest)) :
    rest = [] := by
  have listing : ∀ entry ∈ signs, entry.1.head? = some '/' → entry.1 = ['/'] := by decide
  -- Each other lexeme starts with a character that is no slash.
  generalize spelled : '/' :: rest = piece at lexeme
  cases lexeme with
  | name starts => cases spelled; cases starts
  | keyword listed =>
    obtain ⟨first, others, same, starts, -⟩ := keyword?_spelled listed
    cases spelled.trans same
    cases starts
  | integer whole =>
    subst spelled
    cases whole.2 '/' List.mem_cons_self
  | @real whole _ _ counted =>
    cases whole with
    | nil => exact absurd rfl counted.1
    | cons first others =>
      cases spelled
      cases counted.2 '/' List.mem_cons_self
  | character => cases spelled
  | escape => cases spelled
  | string => cases spelled
  | sign listed =>
    subst spelled
    simpa using listing _ listed rfl

/-- No comment begins before a blank or before the end, if none begins with the same lexeme. -/
theorem Gapless.parted {kind : TokenKind} {piece rest : List Char} (lexeme : Lexeme kind piece)
    (gapless : Gapless (piece ++ rest)) {text : List Char} (parted : Parted text) :
    Gapless (piece ++ text) := by
  obtain ⟨first, others, rfl⟩ := List.exists_cons_of_ne_nil lexeme.solid.ne_nil
  have unblank : isBlank first = false := by
    by_contra blank
    have gap : Gap [first] (others ++ rest) := .blank (by simpa using blank)
    have split : [first] ++ (others ++ rest) = first :: others ++ rest := rfl
    exact gapless.apart split gap
  apply gapless_of_none
  rw [List.cons_append]
  -- Behind a single slash there is neither a star nor another slash.
  have alone (slash : first = '/') : ∀ next ∈ (others ++ text).head?, isBlank next = true := by
    subst slash
    obtain rfl := lexeme.slash
    exact parted
  rw [gap?, if_neg (by simp [unblank])]
  · rintro rest slash same
    cases alone slash '*' (by simp [same])
  · rintro rest slash same
    cases alone slash '/' (by simp [same])

/-! Texts laid out again. -/

/-- Where one lexeme stands behind the other, so it does when they are set apart. -/
theorem Tiled.token_parted {before piece rest : List Char} {kind : TokenKind}
    (gapless : Gapless (piece ++ rest)) (munch : Munch kind piece rest) {text : List Char}
    (parted : Parted text) {tokens : List Token} (further : Tiled (before ++ piece) text tokens) :
    Tiled before (piece ++ text)
      (⟨kind, String.ofList piece, placeAfter before⟩ :: tokens) := by
  have tiled := @Tiled.token before [] piece text kind tokens .nil
    (gapless.parted munch.lexeme parted) (munch.parted parted) (by simpa using further)
  simpa using tiled

/-- Behind the first text there is nothing, or a separator and the others. -/
theorem Joined.behind {text : String} {others : List String} {laid : List Char}
    (joined : Joined (text :: others) laid) :
    ∃ separator rest, laid = text.toList ++ (separator ++ rest) ∧ Joined others rest ∧
      (separator = [] ∧ rest = [] ∨ Separator separator) := by
  cases joined with
  | one => exact ⟨[], [], by simp, .nil, .inl ⟨rfl, rfl⟩⟩
  | cons apart further => exact ⟨_, _, rfl, further, .inr apart⟩

/-- Behind any text, tokens are tiled again by their texts with separators between them, whether the
empty text of the end is among these or not. -/
theorem Tiled.joined {before text : List Char} {found : List Token}
    (tiled : Tiled before text found) {texts : List String}
    (listed : texts = found.map Token.text ∨ texts = found.dropLast.map Token.text)
    {laid : List Char} (joined : Joined texts laid) (front : List Char) :
    ∃ again, Tiled front laid again ∧ again.map Token.spelling = found.map Token.spelling := by
  -- The induction is on the tiling, which knows of each text which lexeme it is.
  induction tiled generalizing texts laid front with
  | done =>
    have empty : laid = [] := by
      rcases listed with rfl | rfl <;> cases joined <;> rfl
    subst empty
    exact ⟨_, .done .nil, rfl⟩
  | @token before gaps piece rest kind tokens _ gapless munch further ih =>
    rw [List.dropLast_cons_of_ne_nil further.ne_nil, List.map_cons, List.map_cons] at listed
    obtain ⟨others, rfl, remaining⟩ : ∃ others, texts = String.ofList piece :: others ∧
        (others = tokens.map Token.text ∨ others = tokens.dropLast.map Token.text) := by
      rcases listed with rfl | rfl
      · exact ⟨_, rfl, .inl rfl⟩
      · exact ⟨_, rfl, .inr rfl⟩
    obtain ⟨separator, behind, rfl, joined, apart⟩ := joined.behind
    obtain ⟨again, tiled, same⟩ := ih remaining joined (front ++ piece ++ separator)
    -- Nothing stands behind the last text, and a separator behind any other.
    have parted : Parted (separator ++ behind) := by
      rcases apart with ⟨rfl, rfl⟩ | apart
      · simp [Parted]
      · exact apart.parted behind
    have gaps : Gaps separator behind := by
      rcases apart with ⟨rfl, rfl⟩ | apart
      · exact .nil
      · exact apart.spacing.gaps behind
    rw [String.toList_ofList]
    exact ⟨_, .token_parted gapless munch parted (.gaps gaps tiled), by simp [same, Token.spelling]⟩

/-- A space between each text and the next. -/
theorem joined_intercalate (texts : List String) :
    Joined texts (String.intercalate " " texts).toList := by
  induction texts with
  | nil => exact .nil
  | cons text others ih =>
    cases others with
    | nil => exact .one text
    | cons next others =>
      have space : Separator [' '] := .mk rfl .nil
      simpa using Joined.cons space ih

/-- Layout between tokens does not matter. Where the texts of the tokens of a source are joined with
separators, each a blank and any blanks and closed comments behind it, the same kinds and texts are
read again, whether or not a separator stands before the end too. In particular they are read again
from the texts with single spaces between them. -/
theorem tokens_joined {source : String} {found : List Token} (read : tokens source = .ok found) :
    (∀ texts laid, texts = found.map Token.text ∨ texts = found.dropLast.map Token.text →
      Joined texts laid → (tokens (String.ofList laid)).map (List.map Token.spelling) =
        .ok (found.map Token.spelling)) ∧
    (tokens (String.intercalate " " (found.map Token.text))).map (List.map Token.spelling) =
      .ok (found.map Token.spelling) := by
  have laidOut {texts : List String} {laid : List Char}
      (listed : texts = found.map Token.text ∨ texts = found.dropLast.map Token.text)
      (joined : Joined texts laid) :
      (tokens (String.ofList laid)).map (List.map Token.spelling) =
        .ok (found.map Token.spelling) := by
    obtain ⟨again, tiled, same⟩ := (tiled_of_tokens read).joined listed joined []
    rw [tokens_of_tiled (by rwa [String.toList_ofList])]
    exact congrArg Except.ok same
  refine ⟨fun texts laid => laidOut, ?_⟩
  have spaced := laidOut (.inl rfl) (joined_intercalate (found.map Token.text))
  rwa [String.ofList_toList] at spaced

/-- A slash before a star, a number before a letter and a quoted mark of a comment are read again
behind other blanks and comments. -/
theorem tokens_joined_touching :
    tokens "/ *1.5e3e\"/*\"" = .ok [⟨.slash, "/", ⟨1, 1⟩⟩, ⟨.star, "*", ⟨1, 3⟩⟩,
      ⟨.real, "1.5e3", ⟨1, 4⟩⟩, ⟨.identifier, "e", ⟨1, 9⟩⟩, ⟨.string, "\"/*\"", ⟨1, 10⟩⟩,
      .atEnd ⟨1, 14⟩] ∧
    Joined ["/", "*", "1.5e3", "e", "\"/*\""] "/\n/* / */*\t1.5e3 e /**/\"/*\"".toList ∧
    (tokens "/\n/* / */*\t1.5e3 e /**/\"/*\"").map (List.map Token.spelling) =
      .ok [(.slash, "/"), (.star, "*"), (.real, "1.5e3"), (.identifier, "e"), (.string, "\"/*\""),
        (.done, "")] := by
  have read : tokens "/ *1.5e3e\"/*\"" = .ok [⟨.slash, "/", ⟨1, 1⟩⟩, ⟨.star, "*", ⟨1, 3⟩⟩,
      ⟨.real, "1.5e3", ⟨1, 4⟩⟩, ⟨.identifier, "e", ⟨1, 9⟩⟩, ⟨.string, "\"/*\"", ⟨1, 10⟩⟩,
      .atEnd ⟨1, 14⟩] := by cbv
  have joined : Joined ["/", "*", "1.5e3", "e", "\"/*\""]
      "/\n/* / */*\t1.5e3 e /**/\"/*\"".toList := by
    have comment : Separator "\n/* / */".toList :=
      .mk rfl (@Spacing.block " / ".toList [] (by decide) .nil)
    have tab : Separator ['\t'] := .mk rfl .nil
    have space : Separator [' '] := .mk rfl .nil
    have empty : Separator " /**/".toList := .mk rfl (@Spacing.block [] [] (by decide) .nil)
    exact .cons comment (.cons tab (.cons space (.cons empty (.one _))))
  exact ⟨read, joined, (tokens_joined read).1 _ _ (.inr rfl) joined⟩

end SmallC
