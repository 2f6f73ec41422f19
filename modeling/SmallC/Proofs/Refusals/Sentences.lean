import SmallC.Proofs.Derivations.Recognition
import SmallC.Proofs.Ending.Units
import SmallC.Proofs.Refusals.Statements

/-! Sentences: where a unit is refused, the token that is named is the first one with which no sentence
goes on. -/

namespace SmallC

/-- A sentence of the grammar, for which whole numbers may be of any size: nothing but being zero makes a
difference. -/
def Sentence (tokens : List Token) : Prop :=
  ∃ others, List.Forall₂ Token.Alike others tokens ∧ ∃ globals, DerivesUnit others globals

namespace Reader

variable {reader next : Reader} {taken more : List Token}

/-- The end of the source is not taken. -/
theorem Goes.further (goes : reader.Goes taken next) : ∀ token ∈ taken, token.kind ≠ .done := by
  induction goes with
  | refl => exact fun token member => absurd member List.not_mem_nil
  | take further _ ih => exact List.forall_mem_cons.mpr ⟨further, ih⟩
  | act _ _ ih => exact ih

/-- Who sees what is taken and the token behind it is no more at the end than who takes it. -/
theorem Goes.started {other : Reader} (goes : reader.Goes taken next)
    (further : reader.current.kind ≠ .done) (sees : other.Sees (taken ++ [next.current])) :
    other.current.kind ≠ .done := by
  obtain ⟨others, same⟩ := goes.head
  rw [same] at sees
  rwa [sees.kind]

/-- All that is before the end is in sight, and the token behind it. -/
theorem sees_of_remaining {token : Token} (plain : ∀ token ∈ taken, token.kind ≠ .done)
    (alike : List.Forall₂ Token.Alike reader.remaining (taken ++ token :: more)) :
    reader.Sees (taken ++ [token]) := by
  induction taken generalizing reader with
  | nil =>
    obtain ⟨rest, seen⟩ := reader.head_sight
    obtain ⟨held, -⟩ := List.forall₂_cons.mp alike
    rw [Sees, seen]
    exact .cons held .nil
  | cons first taken ih =>
    obtain ⟨held, rest⟩ := List.forall₂_cons.mp alike
    obtain ⟨further, plain⟩ := List.forall_mem_cons.mp plain
    rw [Sees, sight_step (held.kind ▸ further)]
    -- There is a token behind this one, so the step brings it in hand.
    have remaining : reader.step.remaining = reader.rest := by
      cases same : reader.rest with
      | nil =>
        rw [same] at rest
        have none := rest.length_eq
        simp at none
      | cons next others => simp [remaining, step, Reader.next, same]
    exact .cons held (ih plain (remaining ▸ rest))

/-- Some reading of a unit goes on from here to its end. -/
def Succeeds (reader : Reader) : Prop :=
  ∃ clock, (readDeclarations ignoring clock reader ()).failure? = none

/-- Before the end of the source, a unit goes on with a declaration. -/
theorem Succeeds.further (succeeds : reader.Succeeds) (further : reader.current.kind ≠ .done) :
    ∃ value next, Reading.topLevel reader = .ok value next ∧ next.Succeeds := by
  obtain ⟨clock, success⟩ := succeeds
  -- With no clock left and a token in hand the loop would have failed.
  cases clock with
  | nil =>
    rw [readDeclarations, if_neg further] at success
    cases success
  | cons tick clock =>
    rw [readDeclarations, if_neg further] at success
    cases read : Reading.topLevel reader with
    | error failure next =>
      rw [read] at success
      cases success
    | ok value next =>
      rw [read] at success
      cases value with
      | none => exact ⟨_, next, rfl, clock, success⟩
      | some function => exact ⟨_, next, rfl, clock, success⟩

end Reader

/-- Where the reading of a unit has come to its end: what is reported has been reported up to the token
that a failure names, and if that token is refused, nothing goes on with it behind what has been taken. -/
structure Stopped {σ : Type} (left : Reader) (outcome : Outcome σ) (taken : List Token)
    (named : Reader) : Prop where
  /-- So many tokens have been taken. -/
  goes : left.Goes taken named
  /-- Nothing is reported later. -/
  reports : outcome.reader.checker.reports = named.checker.reports
  /-- A failure names the line of the token in hand. -/
  line : ∀ failure, outcome.failure? = some failure →
    failure.line? = some named.current.position.line
  /-- A token that is refused is the one in hand: what has been taken may become declarations, and with
  this token behind it nothing goes on to the end. -/
  refuses : ∀ line text, outcome.failure? = some (.unexpectedToken line text) →
    text = named.current.shown ∧ (Part.of (Run Global.Derives)).Begins taken ∧
      ∀ reader : Reader, reader.Sees (taken ++ [named.current]) → ¬ reader.Succeeds

namespace Stopped

open Reading (Ends Behind)

variable {σ : Type} {left next named : Reader} {outcome : Outcome σ} {taken more : List Token}

/-- The checker may act before. -/
theorem acted {checker : Checker} (adds : Checker.Adds (fun _ => True) left.checker checker)
    (stopped : Stopped { left with checker } outcome taken named) :
    Stopped left outcome taken named := by
  obtain ⟨goes, reports, line, refuses⟩ := stopped
  exact ⟨.act adds goes, reports, line, refuses⟩

/-- What is read behind a declaration ends the whole. -/
theorem behind (further : left.current.kind ≠ .done) (goes : left.Goes taken next)
    (spells : (Part.of Global.Derives).Spells taken)
    (ends : Ends (fun _ : Unit => Reading.topLevel) (taken ++ [next.current]) (Behind taken.length))
    (rest : Stopped next outcome more named) : Stopped left outcome (taken ++ more) named := by
  have whole := goes.trans rest.goes
  refine ⟨whole, rest.reports, rest.line, fun line text failed => ?_⟩
  obtain ⟨shown, begins, never⟩ := rest.refuses line text failed
  refine ⟨shown, (spells.andBegins begins).within Part.item_within_run, ?_⟩
  intro reader sees succeeds
  -- Who sees all this reads a declaration first, and takes the same tokens for it.
  obtain ⟨value, middle, read, succeeds⟩ := succeeds.further (whole.started further sees)
  rw [List.append_assoc] at sees
  have front : reader.Sees (taken ++ [next.current]) := by
    obtain ⟨others, same⟩ := rest.goes.head
    rw [same, ← List.singleton_append, ← List.append_assoc] at sees
    exact sees.front
  exact never middle (sees.behind (ends () reader value middle front read)) succeeds

/-- A declaration that fails ends the unit. -/
theorem failed {failure : Failure} {last : Reader} {output : σ} (further : left.current.kind ≠ .done)
    (goes : left.Goes taken named) (reports : last.checker.reports = named.checker.reports)
    (line : failure.line? = some named.current.position.line)
    (refuses : ∀ line text, failure = .unexpectedToken line text →
      Metered.Refuses False (.of Global.Derives) (fun _ : Unit => Reading.topLevel) left taken named
        text) : Stopped left ⟨last, output, some failure⟩ taken named := by
  refine ⟨goes, reports, ?_, ?_⟩
  · rintro found ⟨⟩
    exact line
  · rintro row text ⟨⟩
    -- What begins a declaration begins a unit behind those that have been read.
    obtain ⟨shown, begins, -, never⟩ := refuses row text rfl
    refine ⟨shown, begins.andThen.within Part.item_within_run, fun reader sees succeeds => ?_⟩
    obtain ⟨value, middle, read, -⟩ := succeeds.further (goes.started further sees)
    exact never () reader value middle sees read

end Stopped

namespace Metered

variable {σ : Type}

theorem stopped_readDeclarations (consume : Consumer σ) (turns left : Nat) {gauge : Gauge} {output : σ}
    {outcome : Outcome σ} (done : (readDeclarations consume turns left gauge output).1 = some outcome) :
    ∃ taken named, Stopped gauge.reader outcome taken named := by
  induction left generalizing gauge output with
  | zero => cases done
  | succ left ih =>
    rw [readDeclarations] at done
    dsimp only at done
    by_cases finished : gauge.reader.current.kind = .done
    · rw [if_pos finished] at done
      cases done
      exact ⟨[], gauge.reader, .refl _, rfl, by simp, by simp⟩
    rw [if_neg finished] at done
    have answer : Answer False (.of Global.Derives) (fun _ : Unit => Reading.topLevel) gauge.reader
        (topLevel turns ⟨gauge.reader, gauge.steps + 1⟩) :=
      @answers_topLevel Unit anywhere turns _ _ trivial
    generalize topLevel turns ⟨gauge.reader, gauge.steps + 1⟩ = result at answer done
    cases answer with
    | endless => cases done
    | @failed failure named last steps taken goes reports line refuses =>
      cases done
      exact ⟨taken, named, .failed finished goes reports line refuses⟩
    | @ok value next steps taken goes spells _ ends =>
      cases value with
      | none =>
        obtain ⟨more, named, rest⟩ := ih done
        exact ⟨_, _, rest.behind finished goes spells ends⟩
      | some function =>
        obtain ⟨more, named, rest⟩ := ih done
        -- The function is handed over before the unit goes on.
        have begun : Stopped next outcome more named := by
          refine .acted ?_ rest
          exact Checker.adds_of_eq rfl rfl
        exact ⟨_, _, begun.behind finished goes spells ends⟩

end Metered

/-- A unit stops behind tokens that have been taken from its start. -/
theorem stopped_readUnit {σ : Type} (consume : Consumer σ) (tokens : List Token) (limit : Nat)
    (output : σ) : ∃ taken named,
      Stopped (Reader.before tokens limit {}) (readUnit consume tokens limit output) taken named := by
  -- The unit is read to the same end without clocks.
  have finishes := Metered.finishes_readUnit consume (Nat.lt_succ_self tokens.length) limit output
  exact Metered.stopped_readDeclarations consume _ _ finishes.same

/-- Where the source ends among the tokens, no more than them is in sight. -/
theorem upToEnd_prefix {token : Token} {rest : List Token}
    (ends : ∃ last ∈ token :: rest, last.kind = .done) : upToEnd token rest <+: token :: rest := by
  induction rest generalizing token with
  | nil =>
    obtain ⟨last, member, done⟩ := ends
    obtain rfl := List.mem_singleton.mp member
    rw [upToEnd_done done]
  | cons next rest ih =>
    -- The sight stops at the first end, which is no later than the one that is given.
    by_cases done : token.kind = .done
    · rw [upToEnd_done done]
      exact List.prefix_append [token] _
    · rw [upToEnd_further done]
      obtain ⟨last, member, same⟩ := ends
      rcases List.mem_cons.mp member with rfl | member
      · exact absurd same done
      · exact List.cons_prefix_cons.mpr ⟨rfl, ih ⟨last, member, same⟩⟩

/-- What has been taken from tokens that end somewhere are the first ones, and the one in hand is the
next. -/
theorem Reader.Goes.tokens {tokens taken : List Token} {limit : Nat} {named : Reader}
    (goes : (Reader.before tokens limit {}).Goes taken named)
    (ends : ∃ last ∈ tokens, last.kind = .done) :
    ∃ after, tokens = taken ++ named.current :: after := by
  cases tokens with
  | nil => simp at ends
  | cons token rest =>
    -- The sight of the reader is a prefix of the tokens, and what was taken is the front of it.
    obtain ⟨after, same⟩ := upToEnd_prefix ends
    obtain ⟨others, seen⟩ := named.head_sight
    refine ⟨others ++ after, ?_⟩
    have sight : upToEnd token rest = taken ++ named.sight := goes.sight
    rw [← same, sight, seen, List.append_assoc, List.cons_append]

/-- Declarations that are spelled out are a sentence when the source ends behind them. -/
theorem sentence_of_spells {tokens : List Token}
    (spells : (Part.of (Run Global.Derives)).Spells tokens) : Sentence (tokens ++ [.atEnd .start]) := by
  obtain ⟨others, alike, stands⟩ := spells
  obtain ⟨globals, run⟩ := stands [.atEnd .start]
  exact ⟨others ++ [.atEnd .start], List.rel_append alike (Token.alike_refl _), globals, _, rfl, run⟩

/-- Some reading of tokens like a sentence ends well. -/
theorem Sentence.succeeds {front more : List Token} {token : Token}
    (sentence : Sentence (front ++ token :: more)) (plain : ∀ token ∈ front, token.kind ≠ .done) :
    ∃ reader : Reader, reader.Sees (front ++ [token]) ∧ reader.Succeeds := by
  obtain ⟨others, alike, globals, last, done, run⟩ := sentence
  have some : others ≠ [] := by
    rintro rfl
    have none := alike.length_eq
    simp at none
  have remaining : (Reader.before others (2 * others.length + 1) {}).remaining = others := by
    cases others with
    | nil => exact absurd rfl some
    | cons first rest => rfl
  -- Two levels for each token are enough to read it.
  refine ⟨Reader.before others (2 * others.length + 1) {}, ?_, others, ?_⟩
  · exact Reader.sees_of_remaining plain (remaining.symm ▸ alike)
  · exact readDeclarations_complete ignoring done run others _ () remaining (Nat.le_refl _)
      (Nat.le_refl _)

/-- A syntax error names the first token that has no place: what stands before it could have become a
sentence, and with it nothing can. -/
theorem readUnit_refuses {σ : Type} (consume : Consumer σ) {tokens : List Token}
    (ends : ∃ last ∈ tokens.getLast?, last.kind = .done) (limit : Nat) (output : σ) {line : Nat}
    {text : String}
    (failed : (readUnit consume tokens limit output).failure? = some (.unexpectedToken line text)) :
    ∃ front token rest, tokens = front ++ token :: rest ∧ token.position.line = line ∧
      token.shown = text ∧ (∃ more, Sentence (front ++ more)) ∧
        ¬ ∃ more, Sentence (front ++ token :: more) := by
  obtain ⟨last, listed, done⟩ := ends
  obtain ⟨taken, named, stopped⟩ := stopped_readUnit consume tokens limit output
  obtain ⟨after, whole⟩ := stopped.goes.tokens ⟨last, List.mem_of_getLast? listed, done⟩
  obtain ⟨shown, ⟨more, spells⟩, never⟩ := stopped.refuses line text failed
  have place := Option.some.inj (stopped.line _ failed)
  refine ⟨taken, named.current, after, whole, place.symm, shown.symm,
    ⟨more ++ [.atEnd .start], ?_⟩, ?_⟩
  · have sentence := sentence_of_spells spells
    rwa [List.append_assoc] at sentence
  · rintro ⟨more, sentence⟩
    obtain ⟨reader, sees, succeeds⟩ := sentence.succeeds stopped.goes.further
    exact never reader sees succeeds

/-- An array without elements. -/
def emptyArray : List Token :=
  [(.specifier .int, "int"), (.identifier, "a"), (.leftBracket, "["), (.integer, "0"),
    (.rightBracket, "]"), (.semicolon, ";"), (.done, "")].map fun piece => ⟨piece.1, piece.2, .start⟩

/-- Its length is named although the token has been taken: an array may be declared up to there, and none
has the length zero. -/
theorem readUnit_refuses_emptyArray : (∃ last ∈ emptyArray.getLast?, last.kind = .done) ∧
    (readUnit ignoring emptyArray 3 ()).failure? = some (.unexpectedToken 1 "0") ∧
    ∃ front token rest, emptyArray = front ++ token :: rest ∧ token.position.line = 1 ∧
      token.shown = "0" ∧ (∃ more, Sentence (front ++ more)) ∧
        ¬ ∃ more, Sentence (front ++ token :: more) := by
  have ends : ∃ last ∈ emptyArray.getLast?, last.kind = .done := ⟨⟨.done, "", .start⟩, rfl, rfl⟩
  have failed : (readUnit ignoring emptyArray 3 ()).failure? = some (.unexpectedToken 1 "0") := by cbv
  exact ⟨ends, failed, readUnit_refuses ignoring ends 3 () failed⟩

end SmallC
