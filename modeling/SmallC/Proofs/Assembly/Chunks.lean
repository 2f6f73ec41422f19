import SmallC.Machine.Assembly
import Mathlib.Data.List.Basic

/-! Chunks: assembly consists of texts that are always the same and of global names, each spelled with
the same text before it. -/

namespace SmallC

/-- How a global name stands in assembly. -/
inductive Role where
  /-- The label where a function starts. -/
  | label
  /-- The size of a frame where it is taken. -/
  | frame
  /-- The size of a frame where it is set. -/
  | size
  /-- A name that other units see. -/
  | visible
  /-- The target of a call. -/
  | callee
  /-- An operand in memory. -/
  | memory
  /-- A name that has storage. -/
  | storage
  deriving DecidableEq

/-- A part of assembly. -/
inductive Chunk where
  /-- A text that is always the same. -/
  | fixed (text : String)
  /-- A global name. -/
  | shown (role : Role) (name : String)

namespace Chunk

/-- The characters of a chunk, the given text before each global name. -/
def spelled (globalPrefix : String) : Chunk → String
  | .fixed text => text
  | .shown _ name => globalPrefix ++ name

/-- The global name that a chunk is, with its role. -/
def name? : Chunk → Option (Role × String)
  | .fixed _ => none
  | .shown role name => some (role, name)

end Chunk

/-- The text of chunks in order, the given text before each global name. -/
def spell (globalPrefix : String) (chunks : List Chunk) : String :=
  String.join (chunks.map (Chunk.spelled globalPrefix))

/-- The global names among chunks, in order. -/
def shownIn (chunks : List Chunk) : List (Role × String) := chunks.filterMap Chunk.name?

/-- The chunks of an argument. -/
def Argument.chunks : Argument → List Chunk
  | .operand (.global name) => [.shown .memory name]
  | .callee name => [.shown .callee name]
  | .frameSize name => [.fixed "$", .shown .frame name, .fixed ".size"]
  -- Nothing is put before what is not global.
  | .operand place => [.fixed (place.text "")]
  | .register named => [.fixed named.text]
  | .target label => [.fixed label.text]

/-- The chunks of an item. -/
def Item.chunks : Item → List Chunk
  | .code ⟨opcode, []⟩ => [.fixed ("\t" ++ opcode.text ++ "\n")]
  | .code ⟨opcode, arguments⟩ =>
    .fixed ("\t" ++ opcode.text ++ "\t") ::
      (List.intercalate [.fixed ", "] (arguments.map Argument.chunks) ++ [.fixed "\n"])
  | .entry name => [.shown .label name, .fixed ":\n"]
  | .frameSize name bytes =>
    [.fixed "\t.set\t", .shown .size name, .fixed (".size," ++ toString bytes ++ "\n")]
  | .visible name => [.fixed "\t.globl\t", .shown .visible name, .fixed "\n"]
  | .common name bytes =>
    [.fixed "\t.comm\t", .shown .storage name, .fixed ("," ++ toString bytes ++ "\n")]
  | .mark label => [.fixed (label.text ++ ":\n")]
  | .textSection => [.fixed ".text\n"]
  | .dataSection => [.fixed ".data\n"]
  | .literal label value => [.fixed (label.text ++ ":\t" ++ value.text ++ "\n")]
  | .blank => [.fixed "\n"]

/-- The global name that an argument is or is made of, with its role. -/
def Argument.shown? : Argument → Option (Role × String)
  | .operand (.global name) => some (.memory, name)
  | .callee name => some (.callee, name)
  | .frameSize name => some (.frame, name)
  | .operand _ | .register _ | .target _ => none

/-- The global names of an item, in order. -/
def Item.shown : Item → List (Role × String)
  | .code instruction => instruction.arguments.filterMap Argument.shown?
  | .entry name => [(.label, name)]
  | .frameSize name _ => [(.size, name)]
  | .visible name => [(.visible, name)]
  | .common name _ => [(.storage, name)]
  | .mark _ | .textSection | .dataSection | .literal .. | .blank => []

section Spelling

variable (globalPrefix : String)

@[simp] theorem spell_nil : spell globalPrefix [] = "" := rfl

@[simp] theorem spell_cons (chunk : Chunk) (rest : List Chunk) :
    spell globalPrefix (chunk :: rest) = chunk.spelled globalPrefix ++ spell globalPrefix rest :=
  String.join_cons

@[simp] theorem spell_append (first second : List Chunk) :
    spell globalPrefix (first ++ second) = spell globalPrefix first ++ spell globalPrefix second := by
  unfold spell
  rw [List.map_append, String.join_append]

/-- Chunks with a text between them are spelled with that text between them. -/
theorem spell_intercalate (between : String) (lists : List (List Chunk)) :
    spell globalPrefix (List.intercalate [.fixed between] lists) =
      between.intercalate (lists.map (spell globalPrefix)) := by
  induction lists with
  | nil => rfl
  | cons first rest ih =>
    -- A single text has nothing behind it, so the text between stands only in front of a second
    -- one.
    cases rest with
    | nil => simp [List.intercalate]
    | cons second rest =>
      rw [List.intercalate_cons_cons, spell_append, spell_append, ih]
      simp [Chunk.spelled]

theorem Argument.spell_chunks (argument : Argument) :
    spell globalPrefix argument.chunks = argument.text globalPrefix := by
  unfold chunks Argument.text
  cases argument with
  | operand place => cases place <;> simp [Chunk.spelled, Operand.text]
  | register | target | callee | frameSize => simp [Chunk.spelled, String.append_assoc]

/-- The line of an item is spelled by its chunks. -/
theorem Item.spell_chunks (item : Item) :
    spell globalPrefix item.chunks = (item.line globalPrefix).text := by
  -- Only an instruction has a list in its line; every other item is spelled out at once.
  cases item with
  | code instruction =>
    obtain ⟨opcode, arguments⟩ := instruction
    cases arguments with
    | nil => simp [chunks, line, Line.text, Chunk.spelled]
    | cons first rest =>
      have each : (spell globalPrefix) ∘ Argument.chunks = (·.text globalPrefix) :=
        funext (Argument.spell_chunks globalPrefix)
      simp only [chunks, line, Line.text, spell_cons, spell_append, spell_intercalate, List.map_map,
        each]
      simp [Chunk.spelled, String.append_assoc]
  | _ => simp [chunks, line, Line.text, Chunk.spelled, String.append_assoc]

/-- Assembly is spelled by the chunks of its items, whatever stands before global names. -/
theorem assemblyText_eq_spell (items : List Item) :
    assemblyText globalPrefix items = spell globalPrefix (items.flatMap Item.chunks) := by
  unfold assemblyText linesText
  induction items with
  | nil => rfl
  | cons first rest ih =>
    rw [List.map_cons, List.map_cons, String.join_cons, ih, List.flatMap_cons, spell_append,
      Item.spell_chunks]

end Spelling

section Names

@[simp] theorem shownIn_append (first second : List Chunk) :
    shownIn (first ++ second) = shownIn first ++ shownIn second :=
  List.filterMap_append

theorem Argument.shownIn_chunks (argument : Argument) :
    shownIn argument.chunks = argument.shown?.toList := by
  cases argument with
  | operand place => cases place <;> rfl
  | register | target | callee | frameSize => rfl

/-- A text between chunks shows no names. -/
theorem shownIn_intercalate (between : String) (lists : List (List Chunk)) :
    shownIn (List.intercalate [.fixed between] lists) = lists.flatMap shownIn := by
  induction lists with
  | nil => rfl
  | cons first rest ih =>
    cases rest with
    | nil => simp [List.intercalate]
    | cons second rest =>
      rw [List.intercalate_cons_cons, shownIn_append, shownIn_append, ih, List.flatMap_cons]
      simp [shownIn, Chunk.name?]

/-- The chunks of an item show its names. -/
theorem Item.shownIn_chunks (item : Item) : shownIn item.chunks = item.shown := by
  cases item with
  | code instruction =>
    obtain ⟨opcode, arguments⟩ := instruction
    cases arguments with
    | nil => rfl
    | cons first rest =>
      have each : shownIn ∘ Argument.chunks = fun argument => argument.shown?.toList :=
        funext Argument.shownIn_chunks
      have listed := shownIn_intercalate ", " ((first :: rest).map Argument.chunks)
      rw [List.flatMap_map] at listed
      -- The line break at the end shows nothing.
      change shownIn (_ ++ [Chunk.fixed "\n"]) = (first :: rest).filterMap Argument.shown?
      rw [shownIn_append, listed, List.filterMap_eq_flatMap_toList]
      exact (List.append_nil _).trans (congrArg ((first :: rest).flatMap ·) each)
  | _ => rfl

/-- Items show the names of each one in turn. -/
theorem shownIn_flatMap (items : List Item) :
    shownIn (items.flatMap Item.chunks) = items.flatMap Item.shown := by
  unfold shownIn
  rw [List.filterMap_flatMap]
  exact congrArg (items.flatMap ·) (funext Item.shownIn_chunks)

end Names

end SmallC
