import SmallC.Proofs.Derivations.Sound
import SmallC.Proofs.Ending.Metered
import SmallC.Proofs.Ending.Travels
import SmallC.Proofs.Refusals.Parts

/-! Answers of a part of reading: where it ends it has taken tokens that are something of the grammar,
and where it refuses a token, what it has taken could have become something and is nothing with that
token behind it, because no reading that sees the same goes on. -/

namespace SmallC

/-! Readers that go on and readers that see the same. -/

namespace Reader

/-- A reader goes on: it takes the given tokens, and the checker reports where it is. -/
inductive Goes : Reader → List Token → Reader → Prop where
  /-- It may stay where it is. -/
  | refl (reader : Reader) : Goes reader [] reader
  /-- It may take a token that does not end the source. -/
  | take {taken : List Token} {reader next : Reader} (further : reader.current.kind ≠ .done)
    (rest : Goes reader.step taken next) : Goes reader (reader.current :: taken) next
  /-- The checker may act. -/
  | act {taken : List Token} {reader next : Reader} {checker : Checker}
    (adds : Checker.Adds (fun _ => True) reader.checker checker)
    (rest : Goes { reader with checker } taken next) : Goes reader taken next

variable {reader next last : Reader} {taken more tokens : List Token}

theorem Goes.trans (first : reader.Goes taken next) (second : next.Goes more last) :
    reader.Goes (taken ++ more) last := by
  -- The first way is gone along, and the second one starts where it ends.
  induction first with
  | refl => exact second
  | take further _ ih => exact .take further (ih second)
  | act adds _ ih => exact .act adds (ih second)

/-- The checker may act in the end. -/
theorem Goes.acted {checker : Checker} (goes : reader.Goes taken next)
    (adds : Checker.Adds (fun _ => True) next.checker checker) :
    reader.Goes taken { next with checker } := by
  have whole := goes.trans (.act adds (.refl _))
  rwa [List.append_nil] at whole

/-- What is taken is in sight, and what is left stays there. -/
theorem Goes.sight (goes : reader.Goes taken next) : reader.sight = taken ++ next.sight := by
  induction goes with
  | refl => rfl
  | take further _ ih => rw [sight_step further, ih, List.cons_append]
  | act adds _ ih => exact ih

/-- The token in hand is the first one that is taken, or it stays in hand. -/
theorem Goes.head (goes : reader.Goes taken next) :
    ∃ others, taken ++ [next.current] = reader.current :: others := by
  induction goes with
  | refl => exact ⟨[], rfl⟩
  | take further rest ih => exact ⟨_, rfl⟩
  | act adds _ ih => exact ih

/-- The reader has tokens like the given ones in sight. -/
def Sees (reader : Reader) (tokens : List Token) : Prop :=
  List.Forall₂ Token.Alike (reader.sight.take tokens.length) tokens

theorem Sees.front (sees : reader.Sees (taken ++ more)) : reader.Sees taken := by
  have seen := List.forall₂_take_append _ taken more sees
  rwa [List.take_take, List.length_append, Nat.min_eq_left (Nat.le_add_right _ _)] at seen

/-- What is seen behind the tokens that are taken is seen when they have been. -/
theorem Sees.behind (sees : reader.Sees (taken ++ more))
    (dropped : next.sight = reader.sight.drop taken.length) : next.Sees more := by
  have seen := List.forall₂_drop_append _ taken more sees
  rwa [List.drop_take, List.length_append, Nat.add_sub_cancel_left, ← dropped] at seen

/-- The token in hand is of the kind of the first one seen. -/
theorem Sees.kind {token : Token} (sees : reader.Sees (token :: tokens)) :
    reader.current.kind = token.kind := by
  obtain ⟨rest, seen⟩ := reader.head_sight
  rw [Sees, seen] at sees
  cases sees with
  | cons alike _ => exact alike.kind

theorem ahead_sight (reader : Reader) : ahead reader.sight = reader.current.kind := by
  obtain ⟨rest, seen⟩ := reader.head_sight
  rw [seen, ahead_cons]

/-- Readers that see two tokens alike see a type in parentheses both or neither of them. -/
theorem Sees.opensType {first second : Token} (sees : reader.Sees (first :: second :: tokens))
    (seen : next.sight = first :: second :: more) :
    SmallC.opensType reader.sight = SmallC.opensType next.sight := by
  unfold Sees at sees
  rw [seen]
  -- The two tokens are all that counts.
  match same : reader.sight with
  | [] | [_] => simp [same] at sees
  | one :: two :: rest =>
    rw [same] at sees
    obtain ⟨alike, like, -⟩ : one.Alike first ∧ two.Alike second ∧ _ := by simpa using sees
    simp only [SmallC.opensType, alike.kind, like.kind]

end Reader

/-! Where a reading may end. -/

namespace Reading

variable {ι β γ : Type}

/-- Wherever one of the readings ends that see the given tokens, it ends well. -/
def Ends (readings : ι → Reading β) (tokens : List Token) (good : List Token → List Token → Prop) :
    Prop :=
  ∀ index reader value next, reader.Sees tokens → readings index reader = .ok value next →
    good reader.sight next.sight

/-- So many tokens have been taken. -/
def Behind (count : Nat) (sight rest : List Token) : Prop :=
  rest = sight.drop count

/-- There is no such place. -/
def Nowhere (_ _ : List Token) : Prop :=
  False

/-- What ends behind tokens goes on from there. -/
theorem Ends.bind {readings : ι → Reading β} {further : ι → β → Reading γ} {middle next : Reader}
    {taken more : List Token} {good whole : List Token → List Token → Prop}
    (first : Ends readings (taken ++ [middle.current]) (Behind taken.length))
    (goes : middle.Goes more next)
    (rest : Ends (fun pair : ι × β => further pair.1 pair.2) (more ++ [next.current]) good)
    (both : ∀ sight between rest, Behind taken.length sight between → good between rest →
      whole sight rest) :
    Ends (fun index => readings index >>= further index) (taken ++ more ++ [next.current]) whole := by
  intro index reader value last sees done
  obtain ⟨found, between, begun, done⟩ := bind_ok done
  rw [List.append_assoc] at sees
  -- The first part sees what it takes and one token more.
  have front : reader.Sees (taken ++ [middle.current]) := by
    obtain ⟨others, same⟩ := goes.head
    rw [same, ← List.singleton_append, ← List.append_assoc] at sees
    exact sees.front
  have passed := first index reader found between front begun
  exact both _ _ _ passed
    (rest (index, found) between value last (sees.behind passed) done)

/-- Where a clock has run out only what fails its test ends, and it ends alike with time left. -/
theorem spent_ok {test : TokenKind → Prop} [DecidablePred test] {item rest : Reading β}
    {reader next : Reader} {value : β}
    (done : (do if test (← kind) then unexpected else rest) reader = .ok value next) :
    (do if test (← kind) then item else rest) reader = .ok value next := by
  change (if test reader.current.kind then unexpected else rest) reader = _ at done
  show (if test reader.current.kind then item else rest) reader = _
  by_cases passes : test reader.current.kind
  · rw [if_pos passes] at done
    cases done
  · rw [if_neg passes] at done ⊢
    exact done

theorem Behind.trans {first second : Nat} {sight between rest : List Token}
    (passed : Behind first sight between) (further : Behind second between rest) :
    Behind (first + second) sight rest := by
  unfold Behind at *
  rw [further, passed, List.drop_drop]

end Reading

namespace Metered

open Reading (Ends Behind Nowhere)

variable {α β γ δ ι κ : Type} {eager : Prop} {known : List Token → Prop} {part second : Part}
  {left named : Reader} {taken : List Token} {text : String}

/-- The token in hand is refused behind the tokens that have been taken: those could have become the
part, and no reading that sees them with the refused token behind ends at all. -/
structure Refuses (eager : Prop) (part : Part) (readings : ι → Reading β) (left : Reader)
    (taken : List Token) (named : Reader) (text : String) : Prop where
  /-- The token is named as it is shown. -/
  text : text = named.current.shown
  /-- What has been taken could have become the part. -/
  begins : part.Begins taken
  /-- An opening parenthesis is not refused. -/
  takes : eager → left.current.kind = .leftParen → taken ≠ []
  /-- There is nothing to go on with. -/
  never : Ends readings (taken ++ [named.current]) Nowhere

/-- What comes of a part of reading, in comparison with readings that may see the same tokens. -/
inductive Answer (eager : Prop) (part : Part) (readings : ι → Reading β) (left : Reader) :
    EStateM.Result Halt Gauge α → Prop where
  /-- What has been taken is the part, and those who see it with the next token take as much. -/
  | ok {value : α} {next : Reader} {steps : Nat} {taken : List Token} (goes : left.Goes taken next)
    (spells : part.Spells taken) (takes : eager → left.current.kind = .leftParen → taken ≠ [])
    (ends : Ends readings (taken ++ [next.current]) (Behind taken.length)) :
    Answer eager part readings left (.ok value ⟨next, steps⟩)
  /-- A failure names a token behind which nothing is reported, and if the token has no place there, it
  is refused. -/
  | failed {failure : Failure} {named last : Reader} {steps : Nat} {taken : List Token}
    (goes : left.Goes taken named) (reports : last.checker.reports = named.checker.reports)
    (line : failure.line? = some named.current.position.line)
    (refuses : ∀ line text, failure = .unexpectedToken line text →
      Refuses eager part readings left taken named text) :
    Answer eager part readings left (.error (.failed failure) ⟨last, steps⟩)
  /-- Nothing is said of a loop that turns too often. -/
  | endless {gauge : Gauge} : Answer eager part readings left (.error .endless gauge)

/-- Wherever the tokens in sight are known to be so, a part of reading answers like this. Where it is
eager, it takes a token if that is an opening parenthesis. -/
def Answers (known : List Token → Prop) (eager : Prop) (part : Part) (metered : Metered α)
    (readings : ι → Reading β) : Prop :=
  ∀ left steps, known left.sight → Answer eager part readings left (metered ⟨left, steps⟩)

/-- Nothing is known. -/
def anywhere (_ : List Token) : Prop :=
  True

/-- What answers in one way answers in another one, if that asks for no more of what is taken. -/
theorem Answer.imp {keen : Prop} {other : Part} {readings : ι → Reading β} {others : κ → Reading γ}
    {start : Reader} {result : EStateM.Result Halt Gauge α}
    (answer : Answer eager part readings left result)
    (goes : ∀ taken next, left.Goes taken next → start.Goes taken next)
    (spells : ∀ taken next, left.Goes taken next → part.Spells taken → other.Spells taken)
    (begins : ∀ taken next, left.Goes taken next → part.Begins taken → other.Begins taken)
    (takes : ∀ taken : List Token, (eager → left.current.kind = .leftParen → taken ≠ []) →
      keen → start.current.kind = .leftParen → taken ≠ [])
    (ends : ∀ taken next good, left.Goes taken next →
      (eager → left.current.kind = .leftParen → taken ≠ []) →
        Ends readings (taken ++ [next.current]) good → Ends others (taken ++ [next.current]) good) :
    Answer keen other others start result := by
  -- What has been taken and what is in hand stay, and only what is asked of them is weaker.
  cases answer with
  | ok went spelled took behind =>
    exact .ok (goes _ _ went) (spells _ _ went spelled) (takes _ took) (ends _ _ _ went took behind)
  | failed went reports line refuses =>
    refine .failed (goes _ _ went) reports line fun row text same => ?_
    obtain ⟨shown, begun, took, never⟩ := refuses row text same
    exact ⟨shown, begins _ _ went begun, takes _ took, ends _ _ _ went took never⟩
  | endless => exact .endless

/-- What is done before something that answers, and takes nothing, is no part of it. -/
theorem Answer.acted {checker : Checker} {readings : ι → Reading β}
    {result : EStateM.Result Halt Gauge α}
    (adds : Checker.Adds (fun _ => True) left.checker checker)
    (answer : Answer eager part readings { left with checker } result) :
    Answer eager part readings left result :=
  answer.imp (fun _ _ goes => .act adds goes) (fun _ _ _ => id) (fun _ _ _ => id) (fun _ => id)
    fun _ _ _ _ _ => id

/-- The readings that it is compared with may be others, if those end where these do. -/
theorem Answer.compared {readings : ι → Reading β} {others : κ → Reading γ}
    {result : EStateM.Result Halt Gauge α} (answer : Answer eager part readings left result)
    (ends : ∀ taken next good, left.Goes taken next → (eager → left.current.kind = .leftParen →
      taken ≠ []) → Ends readings (taken ++ [next.current]) good →
        Ends others (taken ++ [next.current]) good) : Answer eager part others left result :=
  answer.imp (fun _ _ => id) (fun _ _ _ => id) (fun _ _ _ => id) (fun _ => id) ends

/-- The token in hand is refused at once. -/
theorem Answer.refused [Part.Spellable part] {readings : ι → Reading β} {last : Reader} {steps : Nat}
    (reports : last.checker.reports = left.checker.reports)
    (plain : eager → left.current.kind ≠ .leftParen) (never : Ends readings [left.current] Nowhere) :
    Answer eager part readings left
      (.error (.failed (.unexpectedToken left.current.position.line left.current.shown))
        ⟨last, steps⟩ : EStateM.Result Halt Gauge α) := by
  refine .failed (.refl left) reports rfl fun line text same => ?_
  obtain ⟨-, rfl⟩ := Failure.unexpectedToken.inj same
  exact ⟨rfl, Part.begins_nil, fun some opens => absurd opens (plain some), never⟩

/-- The token in hand is taken. -/
theorem Answer.takes {readings : ι → Reading β} {value : α} {steps : Nat}
    (further : left.current.kind ≠ .done) (spells : part.Spells [left.current])
    (stepped : ∀ index reader found next, reader.current.kind = left.current.kind →
      readings index reader = .ok found next → next = reader.step) :
    Answer eager part readings left (.ok value ⟨left.step, steps⟩) := by
  refine .ok (.take further (.refl _)) spells (fun _ _ => List.cons_ne_nil _ _) ?_
  intro index reader found next sees done
  have same : reader.current.kind = left.current.kind := Reader.Sees.kind sees
  obtain rfl := stepped index reader found next same done
  show reader.step.sight = reader.sight.drop 1
  rw [reader.sight_step (same ▸ further), List.drop_one, List.tail_cons]

namespace Answers

variable {metered : Metered α} {readings : ι → Reading β}

/-- The part may be a larger one. -/
theorem within {other : Part} (answers : Answers known eager part metered readings)
    (inner : part.Within other) : Answers known eager other metered readings :=
  fun left steps knows => (answers left steps knows).imp (fun _ _ => id)
    (fun _ _ _ spells => spells.within inner) (fun _ _ _ begins => begins.within inner) (fun _ => id)
    fun _ _ _ _ _ => id

/-- More may be known. -/
theorem knowing {more : List Token → Prop} (answers : Answers known eager part metered readings)
    (knows : ∀ tokens, more tokens → known tokens) : Answers more eager part metered readings :=
  fun left steps told => answers left steps (knows _ told)

/-- What is eager may be so without need. -/
theorem calm (answers : Answers known True part metered readings) :
    Answers known eager part metered readings :=
  fun left steps knows => (answers left steps knows).imp (fun _ _ => id) (fun _ _ _ => id)
    (fun _ _ _ => id) (fun _ takes _ => takes trivial) fun _ _ _ _ _ => id

/-- It may be compared with fewer readings. -/
theorem along (answers : Answers known eager part metered readings) (choose : κ → ι) :
    Answers known eager part metered (fun index => readings (choose index)) :=
  fun left steps knows => (answers left steps knows).compared fun _ _ _ _ _ ends index =>
    ends (choose index)

/-- Readings that do not end need no comparison. -/
theorem covered {others : κ → Reading γ} (answers : Answers known eager part metered readings)
    (covers : ∀ index reader value next, others index reader = .ok value next →
      ∃ chosen found, readings chosen reader = .ok found next) :
    Answers known eager part metered others := by
  refine fun left steps knows => (answers left steps knows).compared
    fun _ _ _ _ _ ends index reader value next sees done => ?_
  obtain ⟨chosen, found, ended⟩ := covers index reader value next done
  exact ends chosen reader found next sees ended

/-- Without a level nothing is read, so comparison may start at one. -/
theorem deeper {readings : Nat → Reading β}
    (shallow : ∀ reader value next, readings 0 reader ≠ .ok value next)
    (answers : Answers known eager part metered fun levels => readings (levels + 1)) :
    Answers known eager part metered readings := by
  refine answers.covered fun levels reader value next done => ?_
  cases levels with
  | zero => exact absurd done (shallow reader value next)
  | succ levels => exact ⟨levels, value, done⟩

/-- Comparison may start with time on the clock. -/
theorem ticking (timed : ι → List Token → Reading β)
    (spent : ∀ index reader value next, timed index [] reader = .ok value next →
      timed index [.atEnd .start] reader = .ok value next)
    (answers : Answers known eager part metered
      fun index : ι × Token × List Token => timed index.1 (index.2.1 :: index.2.2)) :
    Answers known eager part metered fun pair : ι × List Token => timed pair.1 pair.2 := by
  refine answers.covered fun pair reader value next done => ?_
  obtain ⟨index, clock⟩ := pair
  cases clock with
  | nil => exact ⟨(index, .atEnd .start, []), value, spent index reader value next done⟩
  | cons tick clock => exact ⟨(index, tick, clock), value, done⟩

theorem pure {value : α} {values : ι → β} :
    Answers known False .nothing (Pure.pure value) (fun index => Pure.pure (values index)) := by
  refine fun left steps knows => .ok (.refl left) Part.spells_nothing (fun eager => eager.elim) ?_
  intro index reader found next sees done
  obtain ⟨-, rfl⟩ := Reading.pure_ok done
  rfl

/-- One part after the other. -/
theorem bind [Part.Spellable second] {next : α → Metered δ} {further : ι → β → Reading γ}
    (first : Answers known eager part metered readings)
    (rest : ∀ value, Answers anywhere False second (next value)
      fun pair : ι × β => further pair.1 pair.2) :
    Answers known eager (part.andThen second) (metered >>= next)
      (fun index => readings index >>= further index) := by
  intro left steps knows
  have begun := first left steps knows
  change Answer _ _ _ _ (EStateM.bind metered next ⟨left, steps⟩)
  unfold EStateM.bind
  generalize metered ⟨left, steps⟩ = result at begun
  cases begun with
  | endless => exact .endless
  | failed goes reports line refuses =>
    refine .failed goes reports line fun row text same => ?_
    obtain ⟨shown, begins, takes, never⟩ := refuses row text same
    refine ⟨shown, begins.andThen, takes, fun index reader value next sees done => ?_⟩
    -- What goes on behind the first part has ended it.
    obtain ⟨found, between, ended, -⟩ := Reading.bind_ok done
    exact never index reader found between sees ended
  | @ok value middle steps taken goes spells takes ends =>
    have ended := rest value middle steps trivial
    have longer {more : List Token} (some : eager) (opens : left.current.kind = .leftParen) :
        taken ++ more ≠ [] := List.append_ne_nil_of_left_ne_nil (takes some opens) more
    dsimp only
    generalize next value ⟨middle, steps⟩ = result at ended
    cases ended with
    | endless => exact .endless
    | @failed failure named last steps more onwards reports line refuses =>
      refine .failed (goes.trans onwards) reports line fun row text same => ?_
      obtain ⟨shown, begins, -, never⟩ := refuses row text same
      exact ⟨shown, spells.andBegins begins, longer,
        ends.bind onwards never fun _ _ _ _ nowhere => nowhere⟩
    | @ok value next steps more onwards follows _ behind =>
      refine .ok (goes.trans onwards) (spells.andThen follows) longer ?_
      refine ends.bind onwards behind fun sight between rest passed further => ?_
      rw [List.length_append]
      exact passed.trans further

/-- What is made of a value takes nothing. -/
theorem last {make : α → δ} {makes : ι → β → γ} (answers : Answers known eager part metered readings) :
    Answers known eager part (metered >>= fun value => Pure.pure (make value))
      (fun index => readings index >>= fun found => Pure.pure (makes index found)) :=
  (answers.bind fun _ => pure).within (Part.andThen_nothing part)

theorem discard (answers : Answers known eager part metered readings) :
    Answers known eager part (Functor.discard metered)
      (fun index => Functor.discard (readings index)) :=
  answers.last

/-- A part whose value does not matter may come first. -/
theorem skip [Part.Spellable second] {next : Metered δ} {further : ι → Reading γ}
    (first : Answers known eager part metered readings)
    (rest : Answers anywhere False second next further) :
    Answers known eager (part.andThen second) (do Functor.discard metered; next)
      (fun index => do Functor.discard (readings index); further index) :=
  first.discard.bind fun _ => rest.along Prod.fst

/-! Single steps. -/

/-- What follows may depend on the reader. -/
theorem looksLeft {next : Reader → Metered α}
    (rest : ∀ reader, Answers known eager part (next reader) readings) :
    Answers known eager part (Metered.look >>= next) readings :=
  fun left steps knows => rest left left steps knows

/-- Both may depend on their readers. -/
theorem look {next : Reader → Metered α} {further : ι → Reader → Reading β}
    (rest : ∀ reader, Answers known eager part (next reader)
      fun pair : ι × Reader => further pair.1 pair.2) :
    Answers known eager part (Metered.look >>= next)
      (fun index => MonadState.get >>= further index) := by
  refine looksLeft fun seen left steps knows => ?_
  refine (rest seen left steps knows).compared fun taken next good _ _ ends => ?_
  exact fun index reader value last sees done => ends (index, reader) reader value last sees done

/-- What follows a look at the token in hand knows its kind. -/
theorem kind {next : TokenKind → Metered α} {further : ι → TokenKind → Reading β}
    (rest : ∀ found, Answers (fun tokens => known tokens ∧ ahead tokens = found) eager part
      (next found) fun index => further index found) :
    Answers known eager part (once Reading.kind >>= next)
      (fun index => Reading.kind >>= further index) := by
  intro left steps knows
  have answer := rest left.current.kind left (steps + 1) ⟨knows, left.ahead_sight⟩
  refine answer.compared fun taken next good goes _ ends index reader value last sees done => ?_
  -- Those who see what is taken or refused see the token in hand first.
  obtain ⟨others, same⟩ := goes.head
  have alike : reader.current.kind = left.current.kind := by
    rw [same] at sees
    exact sees.kind
  refine ends index reader value last sees ?_
  rw [← alike]
  exact done

/-- One of two parts is read, whichever the token in hand asks for. -/
theorem choose {wanted : TokenKind} {other : Part} {yes no : Metered α} {asked : ι → Reading β}
    {spared : ι → Reading β}
    (taken : Answers (fun tokens => known tokens ∧ ahead tokens = wanted) eager part yes asked)
    (rest : Answers (fun tokens => known tokens ∧ ahead tokens ≠ wanted) eager other no spared) :
    Answers known eager (part.either other)
      (do if (← once Reading.kind) = wanted then yes else no)
      (fun index => do if (← Reading.kind) = wanted then asked index else spared index) := by
  refine kind fun found => ?_
  -- The kind that has been seen settles the test on both sides.
  by_cases same : found = wanted
  · rw [if_pos same]
    simp only [if_pos same]
    subst same
    exact taken.within (Part.within_left part other)
  · rw [if_neg same]
    simp only [if_neg same]
    refine (rest.knowing ?_).within (Part.within_right part other)
    exact fun tokens told => ⟨told.1, fun held => same (told.2.symm.trans held)⟩

/-- What follows a look ahead knows whether a type in parentheses starts there. -/
theorem peek {next : Bool → Metered α} {further : ι → Bool → Reading β}
    (rest : ∀ typed, Answers (fun tokens => known tokens ∧ opensType tokens = typed) True part
      (next typed) fun index => further index typed) :
    Answers known True part (once Reading.startsTypeName >>= next)
      (fun index => Reading.startsTypeName >>= further index) := by
  intro left steps knows
  have looks (reader : Reader) :
      Reading.startsTypeName reader = .ok (opensType reader.sight) reader :=
    Reading.startsTypeName_of_outlook rfl
  have answer := rest (opensType left.sight) left (steps + 1) ⟨knows, rfl⟩
  have begun : (once Reading.startsTypeName >>= next) ⟨left, steps⟩ =
      next (opensType left.sight) ⟨left, steps + 1⟩ := by
    show EStateM.bind (once Reading.startsTypeName) next ⟨left, steps⟩ = _
    unfold EStateM.bind once
    rw [looks]
  rw [begun]
  refine answer.compared fun taken last good goes takes ends index reader value final sees done => ?_
  have alike : opensType reader.sight = opensType left.sight := by
    obtain ⟨rest, seen⟩ := last.head_sight
    have sight := goes.sight
    rw [seen] at sight
    match taken with
    | [] =>
      -- Nothing is taken, so the token in hand is no parenthesis.
      have kind : reader.current.kind = last.current.kind := Reader.Sees.kind sees
      have plain : ahead left.sight ≠ .leftParen := by
        rw [left.ahead_sight]
        exact fun opens => takes trivial opens rfl
      have same : ahead reader.sight = ahead left.sight := by
        rw [reader.ahead_sight, kind, sight, List.nil_append, ahead_cons]
      rw [Phrase.opensType_of_ne plain, Phrase.opensType_of_ne (same ▸ plain)]
    | [first] => exact sees.opensType sight
    | first :: second :: others => exact sees.opensType sight
  obtain ⟨typed, middle, looked, done⟩ := Reading.bind_ok done
  rw [looks] at looked
  cases looked
  rw [alike] at done
  exact ends index reader value final sees done

/-- A token of a known kind is taken. -/
theorem advance {kind : TokenKind} (further : kind ≠ .done)
    (knows : ∀ tokens, known tokens → ahead tokens = kind) :
    Answers known eager (.lone kind) (once Reading.advance) (fun _ : ι => Reading.advance) := by
  intro left steps told
  have held : left.current.kind = kind := left.ahead_sight ▸ knows _ told
  refine .takes (held ▸ further) (Part.spells_token held) fun index reader found next _ done => ?_
  cases done
  rfl

/-- The token that has been looked at is taken. -/
theorem held {kind : TokenKind} (further : kind ≠ .done) :
    Answers (fun tokens => known tokens ∧ ahead tokens = kind) eager (.lone kind)
      (once Reading.advance) (fun _ : ι => Reading.advance) :=
  advance further fun _ told => told.2

/-- What follows it is read behind it. -/
theorem past [Part.Spellable second] {kind : TokenKind} {next : Metered δ} {further : ι → Reading γ}
    (more : kind ≠ .done) (rest : Answers anywhere False second next further) :
    Answers (fun tokens => known tokens ∧ ahead tokens = kind) eager ((Part.lone kind).andThen second)
      (do Functor.discard (once Reading.advance); next)
      (fun index => do Functor.discard Reading.advance; further index) :=
  (held more).skip rest

/-- A token that has no place is refused. -/
theorem unexpected [Part.Spellable part] (plain : eager → ∀ tokens, known tokens →
    ahead tokens ≠ .leftParen) :
    Answers known eager part (once Reading.unexpected : Metered α)
      (fun _ : ι => (Reading.unexpected : Reading β)) := by
  intro left steps knows
  refine .refused rfl (fun some opens => ?_) fun index reader value next sees done => ?_
  · exact plain some _ knows (left.ahead_sight.trans opens)
  · cases done

/-- Whatever else fails names a token and refuses none. -/
theorem fails {action : Reading α} {failure : Reader → Failure}
    (fails : ∀ reader, action reader = .error (failure reader) reader)
    (line : ∀ reader, (failure reader).line? = some reader.current.position.line)
    (other : ∀ reader line text, failure reader ≠ .unexpectedToken line text) :
    Answers known eager part (once action) readings := by
  intro left steps knows
  have failed : once action ⟨left, steps⟩ = .error (.failed (failure left)) ⟨left, steps + 1⟩ := by
    unfold once
    rw [fails]
  rw [failed]
  exact .failed (.refl left) rfl (line left) fun line text same => absurd same (other left line text)

theorem tooDeep : Answers known eager part (once Reading.tooDeep : Metered α) readings :=
  fails (fun _ => rfl) (fun _ => rfl) fun _ _ _ => nofun

/-- A token of the given kind is taken, and any other one is refused. -/
theorem expect {wanted : TokenKind} (further : wanted ≠ .done)
    (plain : eager → wanted = .leftParen ∨ ∀ tokens, known tokens → ahead tokens ≠ .leftParen) :
    Answers known eager (.lone wanted) (Metered.expect wanted)
      (fun _ : ι => Reading.expect wanted) := by
  refine kind fun found => ?_
  -- A token of another kind is in hand when reading is refused.
  by_cases same : found = wanted
  · rw [if_pos same]
    simp only [if_pos same]
    exact advance further fun _ knows => knows.2.trans same
  · rw [if_neg same]
    simp only [if_neg same]
    refine unexpected fun some tokens knows opens => ?_
    rcases plain some with rfl | none
    · exact same (knows.2.symm.trans opens)
    · exact none tokens knows.1 opens

/-- What the checker does before something is read is no part of that. -/
theorem actsLeft {action : Checker → γ × Checker} {next : γ → Metered α}
    (adds : ∀ checker, Checker.Adds (fun _ => True) checker (action checker).2)
    (rest : ∀ value, Answers known eager part (next value) readings) :
    Answers known eager part (once (Reading.act action) >>= next) readings :=
  fun left steps knows => .acted (adds left.checker)
    (rest (action left.checker).1 { left with checker := _ } (steps + 1) knows)

theorem actsRight {action : ι → Checker → γ × Checker} {further : ι → γ → Reading β}
    (answers : Answers known eager part metered fun pair : ι × γ => further pair.1 pair.2) :
    Answers known eager part metered (fun index => Reading.act (action index) >>= further index) := by
  refine fun left steps knows => (answers left steps knows).compared
    fun taken next good goes _ ends index reader value last sees done => ?_
  -- The checker changes neither what is in sight nor the end.
  obtain ⟨found, middle, acted, done⟩ := Reading.bind_ok done
  cases acted
  exact ends (index, (action index reader.checker).1)
    { reader with checker := (action index reader.checker).2 } value last sees done

/-- Both may act before they read on. -/
theorem acts {action : Checker → γ × Checker} {actions : ι → Checker → δ × Checker}
    {next : γ → Metered α} {further : ι → δ → Reading β}
    (adds : ∀ checker, Checker.Adds (fun _ => True) checker (action checker).2)
    (rest : ∀ value, Answers known eager part (next value)
      fun pair : ι × δ => further pair.1 pair.2) :
    Answers known eager part (once (Reading.act action) >>= next)
      (fun index => Reading.act (actions index) >>= further index) :=
  actsLeft adds fun value => actsRight (rest value)

theorem checks {verdict : Verdict γ} {verdicts : ι → Verdict δ} {next : γ → Metered α}
    {further : ι → δ → Reading β} (rest : ∀ value, Answers known eager part (next value)
      fun pair : ι × δ => further pair.1 pair.2) :
    Answers known eager part (once (Reading.check verdict) >>= next)
      (fun index => Reading.check (verdicts index) >>= further index) :=
  acts (Checker.adds_record fun _ _ => trivial) rest

/-- Acting takes no token. -/
theorem act {action : Checker → α × Checker} {actions : ι → Checker → β × Checker}
    (adds : ∀ checker, Checker.Adds (fun _ => True) checker (action checker).2) :
    Answers known False .nothing (once (Reading.act action))
      (fun index => Reading.act (actions index)) :=
  acts adds fun _ => pure

/-- What is read may be judged in the end. -/
theorem judged {judge : α → Verdict γ} {judges : ι → β → Verdict δ}
    (answers : Answers known eager part metered readings) :
    Answers known eager part (metered >>= fun value => once (Reading.check (judge value)))
      (fun index => readings index >>= fun found => Reading.check (judges index found)) := by
  have kept (value : α) : Answers anywhere False .nothing (once (Reading.check (judge value)))
      (fun pair : ι × β => Reading.check (judges pair.1 pair.2)) :=
    act (Checker.adds_record fun _ _ => trivial)
  exact (answers.bind kept).within (Part.andThen_nothing part)

/-! Loops. -/

/-- The body of a loop is read inside it. -/
theorem insideLoop (answers : Answers known eager part metered readings) :
    Answers known eager part (Metered.insideLoop metered)
      (fun index => Reading.insideLoop (readings index)) := by
  intro left steps knows
  have enters : Checker.Adds (fun _ => True) left.checker left.checker.enterLoop :=
    Checker.adds_of_eq rfl rfl
  have leaves (checker : Checker) : Checker.Adds (fun _ => True) checker checker.leaveLoop :=
    Checker.adds_of_eq rfl rfl
  have inside : left.Goes [] { left with checker := left.checker.enterLoop } :=
    .act enters (.refl _)
  have answer := answers { left with checker := left.checker.enterLoop } steps knows
  unfold Metered.insideLoop
  dsimp only
  -- Only the count of open loops changes on the way in and out.
  have ended {tokens : List Token} {good : List Token → List Token → Prop}
      (ends : Ends readings tokens good) :
      Ends (fun index => Reading.insideLoop (readings index)) tokens good := by
    intro index reader value next sees done
    unfold Reading.insideLoop at done
    dsimp only at done
    cases read : readings index { reader with checker := reader.checker.enterLoop } with
    | error failure last =>
      rw [read] at done
      cases done
    | ok found last =>
      rw [read] at done
      cases done
      exact ends index { reader with checker := reader.checker.enterLoop } value last sees read
  generalize metered ⟨{ left with checker := left.checker.enterLoop }, steps⟩ = result at answer
  cases answer with
  | ok goes spells takes ends =>
    exact .ok (inside.trans (goes.acted (leaves _))) spells takes (ended ends)
  | failed goes reports line refuses =>
    refine .failed (inside.trans goes) reports line fun row text same => ?_
    obtain ⟨shown, begins, takes, never⟩ := refuses row text same
    exact ⟨shown, begins, takes, ended never⟩
  | endless => exact .endless

section Items

variable {item : List Token → γ → List Token → Prop} {test : TokenKind → Bool}

/-- Items are read one after the other, as long as the token in hand passes the test. -/
theorem whileAt (each : ∀ found, test found = true →
      Answers (fun tokens => ahead tokens = found) False (.of item) metered readings) (turns : Nat) :
    Answers anywhere False (.of (Run item)) (Metered.whileAt test metered turns)
      fun pair : ι × List Token => Reading.whileAt test (readings pair.1) pair.2 := by
  induction turns with
  | zero => exact fun left steps _ => .endless
  | succ turns ih =>
    -- A reading whose clock has run out ends only where its test fails.
    refine ticking (fun index clock => Reading.whileAt test (readings index) clock)
      (fun index reader value next => Reading.spent_ok) ?_
    refine kind fun found => ?_
    cases passes : test found with
    | false => exact pure.within Part.nothing_within_run
    | true =>
      simp only [if_true]
      have first := (each found passes).knowing fun tokens
        (told : anywhere tokens ∧ ahead tokens = found) => told.2
      have others := ih.along fun pair : (ι × Token × List Token) × β => (pair.1.1, pair.1.2.2)
      exact ((first.along Prod.fst).bind fun value => others.last).within Part.item_within_run

/-- A loop has no clock of its own to compare. -/
theorem many (each : ∀ found, test found = true →
      Answers (fun tokens => ahead tokens = found) False (.of item) metered readings) (turns : Nat) :
    Answers anywhere False (.of (Run item)) (Metered.whileAt test metered turns)
      fun index => Reading.many test (readings index) :=
  (whileAt each turns).covered fun index reader value _ done =>
    ⟨(index, reader.remaining), value, done⟩

/-- Further items are read as long as there is a comma before each. -/
theorem furtherItems [Part.Spellable (.of item)]
    (each : ∀ known, Answers known False (.of item) metered readings) (turns : Nat) :
    Answers anywhere False (.of (Run (AfterComma item)))
      (Metered.whileAt (· = .comma) (do Functor.discard (once Reading.advance); metered) turns)
      fun index => Reading.many (· = .comma) (do Functor.discard Reading.advance; readings index) := by
  refine many (fun found same => ?_) turns
  obtain rfl := of_decide_eq_true same
  -- The test has seen the comma, so it is taken for certain.
  have comma : Answers (fun tokens => ahead tokens = .comma) False (.lone .comma)
      (once Reading.advance) fun _ : ι => Reading.advance :=
    advance (by decide) fun _ told => told
  exact (comma.skip (each _)).within Part.comma_within

/-- Items are read with commas between them. -/
theorem commaSeparated [Part.Spellable (.of item)]
    (each : ∀ known, Answers known False (.of item) metered readings)
    (turns : Nat) : Answers known False (.of (Commas item)) (Metered.commaSeparated metered turns)
      fun index => Reading.commaSeparated (readings index) :=
  ((each _).bind fun _ => ((furtherItems each turns).along Prod.fst).last).within
    Part.commas_within

end Items

end Answers

end Metered

end SmallC
