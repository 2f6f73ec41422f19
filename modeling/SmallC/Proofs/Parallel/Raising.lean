import SmallC.Proofs.Parallel.Forms

/-! Raising the limit of nesting: with more levels the same is read, unless there were too few of
them before. -/

namespace SmallC

/-- Readings of the same tokens, the first of which has no more levels than the second. -/
def Pairing.raising : Pairing where
  token := Eq
  name := Eq
  checker := Eq
  symbol := Eq
  scope := Eq
  expression := Eq
  statement := Eq
  function := Eq
  failure := Eq
  levels := (· ≤ ·)
  lenient := True

namespace Pairing

/-- A step gives the same on both sides. -/
theorem steps_raising {α : Type} (step : Checker → α × Checker) : raising.Steps step step Eq := by
  rintro checker _ rfl
  exact ⟨rfl, rfl⟩

/-- The same is built, whatever levels are left. -/
theorem even_raising : raising.Even where
  symbol := rfl
  scope := rfl
  expression := rfl
  statement := rfl
  function := rfl
  spelled := by rintro _ _ rfl _; rfl
  records _ := steps_raising _
  typed := by rintro _ _ rfl _; rfl
  counted := by rintro _ _ rfl _; rfl
  loops := by rintro _ _ rfl; rfl
  returned := by rintro _ _ rfl; rfl

/-- No step of reading depends on how many levels are left, as long as there is one. -/
theorem lawful_raising : raising.Lawful where
  toBuilds := even_raising.builds
  kind := by rintro _ _ rfl; rfl
  line := by rintro _ _ rfl; rfl
  digits := by rintro _ _ rfl _; rfl
  spelled := by rintro _ _ rfl _; rfl
  origin := rfl
  fresh := rfl
  ended := by rintro _ _ rfl; rfl
  unexpected := by rintro _ _ rfl; exact ⟨rfl, rfl⟩
  tooDeep _ _ _ short := absurd trivial short
  bottom _ := trivial
  -- More levels leave more when one is taken.
  lower := by
    rintro levels (_ | more) less
    · cases less
    · exact ⟨more, rfl, Nat.le_of_succ_le_succ less⟩
  outOfRange _ _ := rfl
  tooLarge := by rintro _ _ _ rfl; rfl
  moves := by rintro _ _ _ _ rfl rfl; rfl
  opens := steps_raising _
  closes := steps_raising _
  forgets := congrArg _
  begins type := congrArg (Checker.beginFunction · type)
  enters := congrArg _
  leaves := congrArg _
  declares := by rintro _ _ _ rfl _ _ rfl; exact ⟨trivial, rfl⟩
  prototype := by rintro _ _ _ rfl _ _ rfl; exact ⟨trivial, rfl⟩
  definition := by rintro _ _ _ rfl; exact steps_raising _
  resolves := by rintro _ _ rfl; exact steps_raising _

end Pairing

/-- Whatever is done with the functions that are handed on, a limit of nesting may be raised: where
a unit did not run out of levels, the same is built of the same functions, and reading stops for the
same reason, or ends with the same scopes, symbols and reports; and where it still runs out of them,
it did so before. -/
theorem readUnit_raised {σ : Type} (consume : Consumer σ) (tokens : List Token) {limit more : Nat}
    (higher : limit ≤ more) (output : σ) :
    let one := readUnit consume tokens limit output
    let two := readUnit consume tokens more output
    (¬ one.Exhausted → two.output = one.output ∧ two.failure? = one.failure? ∧
      (one.failure? = none → two.reader.checker = one.reader.checker)) ∧
    (two.Exhausted → one.Exhausted) := by
  intro one two
  have consumes : Pairing.raising.ConsumesWhere (fun _ _ _ => True) consume consume Eq := by
    rintro left _ function _ output _ rfl rfl rfl -
    exact ⟨rfl, rfl⟩
  have readers : Pairing.raising.Readers (.before tokens limit {}) (.before tokens more {}) :=
    .before Pairing.lawful_raising (List.forall₂_same.mpr fun _ _ => rfl) higher
  -- Only the first reading may run out of levels alone.
  have same : one.Exhausted ∨ two.output = one.output ∧ two.failure? = one.failure? ∧
      (one.failure? = none → two.reader.checker = one.reader.checker) := by
    rcases Pairing.ends_readDeclarations Pairing.lawful_raising consumes readers.remaining readers rfl
      (Pairing.handsOn_anything ..) with spent | ends
    · exact .inl spent.2
    · exact .inr ⟨ends.output.symm, ends.failure_eq rfl, fun done => (ends.checker done).symm⟩
  refine ⟨same.resolve_left, fun spent => same.elim id fun ended => ?_⟩
  obtain ⟨line, bound, failed⟩ := spent
  exact ⟨line, bound, ended.2.1.symm.trans failed⟩

/-- The function needs three levels: with more of them nothing changes, and since it runs out of two
it runs out of one. -/
theorem readUnit_raised_echo :
    let least := readUnit (listing ignoring) echoTokens 1 ((), [])
    let few := readUnit (listing ignoring) echoTokens 2 ((), [])
    let one := readUnit (listing ignoring) echoTokens 3 ((), [])
    let two := readUnit (listing ignoring) echoTokens 7 ((), [])
    (1 ≤ 2 ∧ few.Exhausted ∧ least.Exhausted) ∧
      3 ≤ 7 ∧ one.failure? = none ∧ two.output = one.output ∧ two.failure? = none ∧
        two.reader.checker = one.reader.checker := by
  have spent : (readUnit (listing ignoring) echoTokens 2 ((), [])).failure? =
      some (.tooDeep 1 2) := by cbv
  have done : (readUnit (listing ignoring) echoTokens 3 ((), [])).failure? = none := by cbv
  have lasting : ¬ (readUnit (listing ignoring) echoTokens 3 ((), [])).Exhausted := by
    rintro ⟨line, limit, failed⟩
    rw [done] at failed
    cases failed
  have lowered := readUnit_raised (listing ignoring) echoTokens (by decide : 1 ≤ 2) ((), [])
  have raised := readUnit_raised (listing ignoring) echoTokens (by decide : 3 ≤ 7) ((), [])
  obtain ⟨output, failure, checker⟩ := raised.1 lasting
  exact ⟨⟨by decide, ⟨1, 2, spent⟩, lowered.2 ⟨1, 2, spent⟩⟩, by decide, done, output,
    failure.trans done, checker done⟩

end SmallC
