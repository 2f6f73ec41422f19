import SmallC.Proofs.Derivations.Stages
import SmallC.Proofs.Report.Adding

/-! Travels of a reader: it takes tokens one after the other, never the end of the source, and the
checker acts at the places it comes to. -/

namespace SmallC

namespace Checker

/-- Whatever the checker has found since, it has found at the place in hand. -/
structure Stays (old new : Checker) : Prop where
  /-- The place is the same. -/
  position : new.position = old.position
  /-- All that is reported in addition is reported there. -/
  reports : ∀ report ∈ new.reports, report ∈ old.reports ∨ report.position = old.position

variable {checker old new : Checker}

/-- What changes neither reports nor the place stays. -/
theorem stays_of_eq (position : new.position = old.position) (reports : new.reports = old.reports) :
    old.Stays new :=
  ⟨position, fun _ member => .inl (reports ▸ member)⟩

/-- What is added at the place in hand has been found there. -/
theorem Adds.stays {allowed : Problem → Prop} (adds : Adds allowed old new) : old.Stays new := by
  obtain ⟨position, problems, same, -⟩ := adds
  refine ⟨position, fun report member => ?_⟩
  rw [same] at member
  rcases List.mem_append.mp member with earlier | here
  · exact .inl earlier
  · obtain ⟨problem, -, rfl⟩ := List.mem_map.mp here
    exact .inr rfl

theorem stays_record {α : Type} (verdict : Verdict α) (checker : Checker) :
    checker.Stays (record verdict checker).2 :=
  (adds_record (fun _ _ => trivial) checker).stays

theorem stays_closeParameters (checker : Checker) : checker.Stays checker.closeParameters :=
  (@adds_closeParameters (fun _ => True) checker).stays

theorem stays_declareVariable (name : String) (type : Ty) (checker : Checker) :
    checker.Stays (declareVariable name type checker).2 :=
  (@adds_declareVariable (fun _ => True) name trivial trivial type checker).stays

theorem stays_declareFunction (name : String) (type : Ty) (checker : Checker) :
    checker.Stays (declareFunction name type checker).2 :=
  (@adds_declareFunction (fun _ => True) name trivial type checker).stays

theorem stays_defineFunction (name : String) (type : Ty) (checker : Checker) :
    checker.Stays (defineFunction name type checker).2 :=
  (@adds_defineFunction (fun _ => True) name trivial trivial type checker).stays

theorem stays_resolve (name : String) (checker : Checker) :
    checker.Stays (resolve name checker).2 :=
  (@adds_resolve (fun _ => True) name trivial checker).stays

end Checker

namespace Reader

/-- The tokens in sight, the last of which ends the source. -/
def sight (reader : Reader) : List Token :=
  upToEnd reader.current reader.rest

/-- How many tokens stand before the end of the source. -/
def distance (reader : Reader) : Nat :=
  reader.sight.length - 1

/-- What becomes of a reader that takes so many tokens. -/
inductive Travels : (taken : Nat) → Reader → Reader → Prop where
  /-- It may stay where it is. -/
  | refl (reader : Reader) : Travels 0 reader reader
  /-- It may take a token that does not end the source. -/
  | take {taken : Nat} {reader next : Reader} (further : reader.current.kind ≠ .done)
    (rest : Travels taken reader.step next) : Travels (taken + 1) reader next
  /-- The checker may act where the reader is. -/
  | act {taken : Nat} {reader next : Reader} {checker : Checker}
    (stays : reader.checker.Stays checker) (rest : Travels taken { reader with checker } next) :
    Travels taken reader next

variable {reader next last : Reader} {taken more : Nat}

theorem Travels.trans (first : Travels taken reader next) (second : Travels more next last) :
    Travels (taken + more) reader last := by
  -- The first travel is walked along, and the second one starts where it ends.
  induction first with
  | refl => rwa [Nat.zero_add]
  | take further _ ih =>
    rw [Nat.add_right_comm]
    exact .take further (ih second)
  | act stays _ ih => exact .act stays (ih second)

theorem Travels.once (further : reader.current.kind ≠ .done) : Travels 1 reader reader.step :=
  .take further (.refl _)

theorem Travels.acts {checker : Checker} (stays : reader.checker.Stays checker) :
    Travels 0 reader { reader with checker } :=
  .act stays (.refl _)

theorem sight_step (further : reader.current.kind ≠ .done) :
    reader.sight = reader.current :: reader.step.sight :=
  upToEnd_further further reader.rest

/-- At the end of the source nothing else is in sight. -/
theorem sight_done (done : reader.current.kind = .done) : reader.sight = [reader.current] :=
  upToEnd_done done reader.rest

/-- The token in hand is the first one in sight. -/
theorem head_sight (reader : Reader) : ∃ rest, reader.sight = reader.current :: rest := by
  by_cases done : reader.current.kind = .done
  · exact ⟨[], sight_done done⟩
  · exact ⟨_, sight_step done⟩

theorem distance_step (further : reader.current.kind ≠ .done) :
    reader.distance = reader.step.distance + 1 := by
  -- The end is still in sight after the step, so the subtraction takes nothing from an empty list.
  obtain ⟨rest, seen⟩ := head_sight reader.step
  unfold distance
  rw [sight_step further, seen]
  rfl

theorem distance_eq_zero : reader.distance = 0 ↔ reader.current.kind = .done := by
  constructor
  · intro none
    by_contra further
    rw [distance_step further] at none
    cases none
  · intro done
    rw [distance, sight_done done]
    rfl

/-- What is taken is out of sight, and it was before the end. -/
theorem Travels.sight (travels : Travels taken reader next) :
    next.sight = reader.sight.drop taken ∧ next.distance + taken = reader.distance := by
  -- Each token that is taken is the first one in sight; what the checker does changes no tokens.
  induction travels with
  | refl => exact ⟨rfl, rfl⟩
  | take further _ ih =>
    rw [sight_step further, distance_step further, List.drop_succ_cons]
    exact ⟨ih.1, by omega⟩
  | act stays _ ih => exact ih

/-- At the end of the source nothing is taken. -/
theorem Travels.done (travels : Travels taken reader next) (done : reader.current.kind = .done) :
    taken = 0 ∧ next.current = reader.current ∧ next.rest = reader.rest := by
  induction travels with
  | refl => exact ⟨rfl, rfl, rfl⟩
  | take further => exact absurd done further
  | act stays _ ih => exact ih done

/-- No more tokens are ahead than there are. -/
theorem distance_le (reader : Reader) : reader.distance ≤ reader.remaining.length := by
  -- What is in sight is at most what is left and an end of the source behind it.
  obtain ⟨current, rest, checker, limit⟩ := reader
  have bounded (token : Token) (rest : List Token) : (upToEnd token rest).length ≤ rest.length + 2 := by
    induction rest generalizing token with
    | nil =>
      unfold upToEnd
      split <;> simp
    | cons next rest ih =>
      unfold upToEnd
      split
      · simp
      · exact Nat.succ_le_succ (ih next)
  have known := bounded current rest
  change (upToEnd current rest).length - 1 ≤ rest.length + 1
  omega

end Reader

end SmallC
