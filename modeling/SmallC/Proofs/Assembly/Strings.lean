import SmallC.Proofs.Assembly.Labels
import SmallC.Proofs.Source.Literals

/-! Texts in the assembly: an assembler reads back the bytes of every text that a source spells. -/

namespace SmallC

/-! How an assembler reads a text between double quotes. -/

/-- What an octal digit counts. -/
def octalValue? (digit : Char) : Option Nat :=
  if '0' ≤ digit ∧ digit ≤ '7' then some (digit.toNat - '0'.toNat) else none

/-- The byte that three octal digits count. -/
def octalByte? (high middle low : Char) : Option UInt8 := do
  let value := 64 * (← octalValue? high) + 8 * (← octalValue? middle) + (← octalValue? low)
  if value < 256 then some (UInt8.ofNat value) else none

/-- Whether the character is printable and has only one byte. -/
def isPrintable (character : Char) : Bool :=
  32 ≤ character.toNat && character.toNat ≤ 126

/-- The first byte of a text between double quotes, and what follows it. -/
def quotedByte? : List Char → Option (UInt8 × List Char)
  -- Behind a backslash stand a quote, a backslash, one of three letters, or three octal digits.
  | '\\' :: '"' :: rest => some (34, rest)
  | '\\' :: '\\' :: rest => some (92, rest)
  | '\\' :: 'n' :: rest => some (10, rest)
  | '\\' :: 't' :: rest => some (9, rest)
  | '\\' :: 'r' :: rest => some (13, rest)
  | '\\' :: high :: middle :: low :: rest => (octalByte? high middle low).map (·, rest)
  | character :: rest =>
    if isPrintable character ∧ character ≠ '\\' then some (UInt8.ofNat character.toNat, rest)
    else none
  | [] => none

theorem quotedByte?_shorter {text rest : List Char} {byte : UInt8}
    (found : quotedByte? text = some (byte, rest)) : rest.length < text.length := by
  unfold quotedByte? at found
  split at found
  -- Three octal digits stand for one byte.
  case h_6 =>
    obtain ⟨_, _, same⟩ := Option.map_eq_some_iff.mp found
    cases same
    simp
    omega
  case h_7 =>
    split at found <;> cases found
    simp
  all_goals cases found <;> simp

/-- The bytes of a text up to the quote that closes it, and what follows the quote. -/
def bytesQuoted? (text : List Char) : Option (List UInt8 × List Char) :=
  match text with
  | '"' :: rest => some ([], rest)
  | text =>
    match found : quotedByte? text with
    | some (byte, rest) =>
      have := quotedByte?_shorter found
      (bytesQuoted? rest).map fun read => (byte :: read.1, read.2)
    | none => none
termination_by text.length

/-! What is written is read back. -/

/-- What holds of the eight octal digits holds of every one that is written. -/
theorem octalDigit_of {good : Nat → Char → Prop} (each : ∀ digit < 8, good digit (octalDigit digit))
    (value : Nat) : good (value % 8) (octalDigit value) := by
  -- Only the remainder by eight decides which digit is written.
  have same : octalDigit (value % 8) = octalDigit value := by
    unfold octalDigit
    rw [Nat.mod_mod]
  exact same ▸ each _ (Nat.mod_lt _ (by decide))

theorem octalValue?_octalDigit (value : Nat) : octalValue? (octalDigit value) = some (value % 8) :=
  @octalDigit_of (fun digit written => octalValue? written = some digit) (by decide) value

/-- Three octal digits count the byte that they are written for. -/
theorem octalByte?_digits (byte : UInt8) : octalByte? (octalDigit (byte.toNat / 64))
    (octalDigit (byte.toNat / 8)) (octalDigit byte.toNat) = some byte := by
  -- The digits are those of the byte in base eight, and three of them are enough.
  have small : byte.toNat < 256 := byte.toNat_lt
  have whole : 64 * (byte.toNat / 64 % 8) + 8 * (byte.toNat / 8 % 8) + byte.toNat % 8 =
      byte.toNat := by omega
  simp only [octalByte?, octalValue?_octalDigit, bind, Option.bind, whole, if_pos small]
  rw [UInt8.ofNat_toNat]

/-- An octal digit is no letter and no sign that may follow a backslash. -/
theorem octalDigit_plain (value : Nat) : octalDigit value ∉ ['"', '\\', 'n', 't', 'r'] :=
  @octalDigit_of (fun _ written => written ∉ ['"', '\\', 'n', 't', 'r']) (by decide) value

/-- How a byte is written: as one of five escapes, as itself, or in octal digits. -/
theorem quotedByte_cases (byte : UInt8) :
    (byte, quotedByte byte) ∈ [(34, ['\\', '"']), (92, ['\\', '\\']), (10, ['\\', 'n']),
        (9, ['\\', 't']), (13, ['\\', 'r'])] ∨
      (∃ character : Char, quotedByte byte = [character] ∧ isPrintable character = true ∧
        character ≠ '\\' ∧ character ≠ '"' ∧ UInt8.ofNat character.toNat = byte) ∨
      quotedByte byte = ['\\', octalDigit (byte.toNat / 64), octalDigit (byte.toNat / 8),
        octalDigit byte.toNat] := by
  -- The five bytes with an escape come first, then those that are written as they are.
  unfold quotedByte
  split
  · next same => simp [same]
  split
  · next same => simp [same]
  split
  · next same => simp [same]
  split
  · next same => simp [same]
  split
  · next same => simp [same]
  split
  · next unquoted slashless _ _ _ range =>
    -- A printable byte is the number of the character that stands for it.
    have small : byte.toNat < 256 := byte.toNat_lt
    have valid : byte.toNat.isValidChar := .inl (by omega)
    have same : (Char.ofNat byte.toNat).toNat = byte.toNat := by
      rw [Char.toNat_ofNat, if_pos valid]
    have differs {other : Char} {value : UInt8} (apart : byte ≠ value)
        (counted : other.toNat = value.toNat) : Char.ofNat byte.toNat ≠ other := by
      rintro rfl
      exact apart (UInt8.toNat_inj.mp (same.symm.trans counted))
    refine .inr (.inl ⟨_, rfl, ?_, differs slashless rfl, differs unquoted rfl, ?_⟩)
    · simpa [isPrintable, same, UInt8.le_iff_toNat_le] using range
    · rw [same, UInt8.ofNat_toNat]
  · exact .inr (.inr rfl)

/-- The first byte that is read is the one that was written. -/
theorem bytesQuoted?_cons (byte : UInt8) (text : List Char) :
    bytesQuoted? (quotedByte byte ++ text) =
      (bytesQuoted? text).map fun read => (byte :: read.1, read.2) := by
  -- What is written for the byte is read as it, and no quote is taken for the closing one.
  have first : quotedByte? (quotedByte byte ++ text) = some (byte, text) ∧
      (quotedByte byte ++ text).head? ≠ some '"' := by
    rcases quotedByte_cases byte with listed | ⟨character, same, printable, slashless, unquoted, value⟩ |
      same
    · simp only [List.mem_cons, Prod.mk.injEq, List.not_mem_nil, or_false] at listed
      rcases listed with ⟨rfl, same⟩ | ⟨rfl, same⟩ | ⟨rfl, same⟩ | ⟨rfl, same⟩ | ⟨rfl, same⟩ <;>
        simp [same, quotedByte?]
    · rw [same, List.singleton_append]
      refine ⟨?_, by simpa using unquoted⟩
      simp [quotedByte?, printable, slashless, value]
    · have plain := octalDigit_plain (byte.toNat / 64)
      simp only [List.mem_cons, List.not_mem_nil, or_false, not_or] at plain
      rw [same]
      exact ⟨by simp [quotedByte?, plain, octalByte?_digits], by simp⟩
  rw [bytesQuoted?.eq_def]
  split
  · next same =>
    rw [same] at first
    exact absurd rfl first.2
  · split
    · next found =>
      rw [first.1] at found
      cases found
      rfl
    · next found =>
      rw [first.1] at found
      cases found

/-- The bytes of a text that is written, and whatever is read behind it. -/
theorem bytesQuoted?_append (bytes : List UInt8) (text : List Char) :
    bytesQuoted? (bytes.flatMap quotedByte ++ text) =
      (bytesQuoted? text).map fun read => (bytes ++ read.1, read.2) := by
  induction bytes with
  | nil => simp
  | cons byte bytes ih =>
    rw [List.flatMap_cons, List.append_assoc, bytesQuoted?_cons, ih]
    simp [Function.comp_def]

theorem printable_quotedByte (byte : UInt8) :
    ∀ character ∈ quotedByte byte, isPrintable character = true := by
  have digit (value : Nat) : isPrintable (octalDigit value) = true :=
    @octalDigit_of (fun _ written => isPrintable written = true) (by decide) value
  have backslash : isPrintable '\\' = true := by decide
  -- A byte is escaped by a letter, stands for itself, or is written in three digits.
  rcases quotedByte_cases byte with listed | ⟨character, same, printable, -⟩ | same
  · simp only [List.mem_cons, Prod.mk.injEq, List.not_mem_nil, or_false] at listed
    rcases listed with ⟨-, same⟩ | ⟨-, same⟩ | ⟨-, same⟩ | ⟨-, same⟩ | ⟨-, same⟩ <;>
      simp [same, isPrintable]
  · simpa [same] using printable
  · simp [same, digit, backslash]

/-- A text stands between double quotes for bytes: an assembler reads exactly them back, no quote
inside ends it, and it is printable. -/
structure Quotes (shown : List Char) (bytes : List UInt8) : Prop where
  /-- Up to the quote behind it, the bytes are read. -/
  reads : ∀ rest, bytesQuoted? (shown ++ '"' :: rest) = some (bytes, rest)
  /-- No quote inside closes it. -/
  unclosed : bytesQuoted? shown = none
  /-- All characters are printable and have one byte. -/
  printable : ∀ character ∈ shown, isPrintable character = true

/-- Every text is written so that its bytes are read back. -/
theorem quotes_quotedText (text : String) :
    Quotes (quotedText text).toList text.toUTF8.data.toList := by
  have shown : (quotedText text).toList = text.toUTF8.data.toList.flatMap quotedByte := by
    rw [quotedText, String.toList_ofList]
  rw [shown]
  -- Behind the last byte stands the closing quote, or nothing where there is none.
  refine ⟨fun rest => ?_, ?_, fun character member => ?_⟩
  · rw [bytesQuoted?_append, bytesQuoted?]
    simp
  · rw [← List.append_nil (List.flatMap _ _), bytesQuoted?_append, bytesQuoted?.eq_def]
    simp [quotedByte?]
  · obtain ⟨byte, -, inside⟩ := List.mem_flatMap.mp member
    exact printable_quotedByte byte character inside

/-! Every text of a function is written. -/

/-- A text in a function has a constant behind the code of the function. -/
theorem Handed.string_mem_constants {entry : Handed} {text : String}
    (inside : .string text ∈ entry.function.nodes) :
    ∃ label, .literal label (.string text) ∈ entry.constants := by
  -- The text is lowered at a site of its own, and what sites keep is written behind the code.
  rcases entry.function.among_sites inside entry.generated.nextLabel with
    ⟨progress, here⟩ | ⟨_, _, _, same, _⟩
  · refine ⟨progress.label, literal_mem_literalItems ?_⟩
    rw [Function.literals_last]
    refine List.mem_filterMap.mpr ⟨.node (.string text) progress, ?_, rfl⟩
    exact here.subset (by simp [Expression.sites])
  · cases same

/-- The line of an item stands in the text of the items, behind whole lines. -/
theorem assemblyText_mem {items : List Item} {item : Item} (member : item ∈ items)
    (globalPrefix : String) : ∃ before after, assemblyText globalPrefix items =
      assemblyText globalPrefix before ++ (item.line globalPrefix).text ++ after := by
  obtain ⟨before, after, rfl⟩ := List.append_of_mem member
  refine ⟨before, assemblyText globalPrefix after, ?_⟩
  simp [assemblyText, linesText, String.join_append, String.append_assoc]

/-- What becomes of a literal that denotes a text. -/
structure Token.Spells (token : Token) (text : String) : Prop where
  /-- The value between its quotes is the text, escape by escape. -/
  spelled : ∃ body, token.text = String.ofList (inQuotes body) ∧ Denotes body text.toList
  /-- Where an operand is read, the text is. -/
  read : ∀ levels reader, reader.current = token →
    Reading.primary levels reader = .ok (.string text) reader.step
  /-- Its type is that of its bytes and a closing zero. -/
  typed : (Expression.string text).type = .array .char 0 (text.toUTF8.size + 1)
  /-- Whatever source compiles to assembly, a function that has the text as a node has it on a line
  of its own, in a form from which its bytes are read back. -/
  written : ∀ {options file source compilation}, compile options file source = .ok compilation →
    options.checkOnly = false → ∀ entry ∈ handedOver options source,
      .string text ∈ entry.function.nodes → ∃ (label : Label) (before : List Item) (shown after : String),
        compilation.assembly =
          assemblyText options.globalPrefix before
            ++ (label.text ++ ":\t.asciz\t\"" ++ shown ++ "\"\n") ++ after ∧
        Quotes shown.toList text.toUTF8.data.toList

/-- Only what stands between double quotes is a string lexeme. -/
theorem Lexeme.string_cases {piece : List Char} (lexeme : Lexeme .string piece) :
    ∃ body, QuotedBody body ∧ piece = inQuotes body := by
  -- Neither a keyword nor a sign is a string.
  generalize same : TokenKind.string = kind at lexeme
  cases lexeme with
  | string quoted => exact ⟨_, quoted, rfl⟩
  | keyword listed =>
    subst same
    unfold TokenKind.keyword? at listed
    split at listed <;> cases listed
  | sign listed =>
    subst same
    have none : ∀ entry ∈ signs, entry.2 ≠ .string := by decide
    exact absurd rfl (none _ listed)
  | _ => cases same

/-- Every token but the end is a lexeme of its kind. -/
theorem Tiled.lexeme {before text : List Char} {tokens : List Token}
    (tiled : Tiled before text tokens) : ∀ token ∈ tokens, token.kind ≠ .done →
      ∃ piece, Lexeme token.kind piece ∧ token.text = String.ofList piece := by
  induction tiled with
  | done apart => simp [Token.atEnd]
  | token apart gapless munch _ ih =>
    intro token member further
    rcases List.mem_cons.mp member with rfl | member
    · exact ⟨_, munch.lexeme, rfl⟩
    · exact ih token member further

/-- A literal that denotes a text is kept through to the assembly. -/
theorem spells_of_denotes {token : Token} {body : List Char} {text : String}
    (literal : token.kind = .string) (same : token.text = String.ofList (inQuotes body))
    (denotes : Denotes body text.toList) : token.Spells text where
  spelled := ⟨body, same, denotes⟩
  read levels reader here := by
    have value : unescape token.text = text := by
      rw [same, denotes.unescaped, String.ofList_toList]
    have decided {α : Type} (next : TokenKind → Reading α) :
        (Reading.kind >>= next) reader = next reader.current.kind reader := rfl
    unfold Reading.primary
    rw [decided, here, literal, ← value, ← here]
    rfl
  typed := rfl
  written := by
    intro options file source compilation compiled writes entry member inside
    -- The line of the constant is among those of the function, which are among all lines.
    obtain ⟨-, items, globals, -, assembly⟩ := compile_assembly compiled
    obtain ⟨label, kept⟩ := entry.string_mem_constants inside
    have listed : .literal label (.string text) ∈ (generatedFrom options source).items ++ globals := by
      refine List.mem_append_left _ ?_
      rw [items]
      refine List.mem_flatMap.mpr ⟨entry, ?_, List.mem_append_right _ kept⟩
      rwa [writtenFrom, if_neg (by simp [writes])]
    obtain ⟨before, after, split⟩ := assemblyText_mem listed options.globalPrefix
    have line : ((Item.literal label (.string text)).line options.globalPrefix).text =
        label.text ++ ":\t.asciz\t\"" ++ quotedText text ++ "\"\n" := by
      have opening : ":\t.asciz\t\"" = ":\t" ++ ".asciz\t\"" := rfl
      have closing : "\"\n" = "\"" ++ "\n" := rfl
      simp only [opening, closing, Item.line, Literal.text, Line.text, String.append_assoc]
    exact ⟨label, before, quotedText text, after, by rw [assembly, split, line],
      quotes_quotedText text⟩

/-- Every string literal of a source denotes one text: it is read as an operand of that value, whose
type has room for its bytes and a closing zero, and an assembler reads exactly these bytes back
wherever the text is written, from printable characters on one line. And every text is that of some
literal, which is one token by itself. -/
theorem tokens_spell :
    (∀ {source found}, tokens source = .ok found → ∀ token ∈ found, token.kind = .string →
      token.Spells (unescape token.text)) ∧
    ∀ value : String, unescape (literalOf value) = value ∧
      tokens (literalOf value) = .ok [⟨.string, literalOf value, .start⟩,
        .atEnd (Position.start.after (literalOf value).toList)] := by
  refine ⟨fun {source found} lexed token member literal => ?_, fun value => ?_⟩
  · -- A string token is a lexeme of its kind, so what is between its quotes denotes something.
    have tiled : Tiled [] source.toList found := (@tokensFrom_eq_ok [] _ _).mp lexed
    obtain ⟨piece, lexeme, same⟩ := tiled.lexeme token member (by simp [literal])
    rw [literal] at lexeme
    obtain ⟨body, quoted, rfl⟩ := lexeme.string_cases
    obtain ⟨value, denotes⟩ := quoted.denotes
    refine spells_of_denotes literal same ?_
    rwa [same, denotes.unescaped, String.toList_ofList]
  · -- Escaping only what cannot stand for itself spells any text.
    have denotes := denotes_spelled value.toList
    refine ⟨?_, ?_⟩
    · rw [literalOf, denotes.unescaped, String.ofList_toList]
    · have read := tokens_inQuotes denotes.quotedBody
      rwa [literalOf, String.toList_ofList]

/-- A literal with a zero before a digit, a tab and a character of two bytes. -/
def zeroSource : String := "\"\\01\\t\u00e9\""

/-- The zero is written with all three digits, which leaves the digit behind it alone. -/
theorem tokens_spell_zero :
    tokens zeroSource = .ok [⟨.string, zeroSource, .start⟩, .atEnd ⟨1, 9⟩] ∧
      quotedText (unescape zeroSource) = "\\0001\\t\\303\\251" ∧
      Token.Spells ⟨.string, zeroSource, .start⟩ (unescape zeroSource) := by
  have lexed : tokens zeroSource = .ok [⟨.string, zeroSource, .start⟩, .atEnd ⟨1, 9⟩] := by cbv
  exact ⟨lexed, by cbv, tokens_spell.1 lexed _ (by simp) rfl⟩

end SmallC
