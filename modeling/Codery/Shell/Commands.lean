import Codery.Shell.Lexer

/-! Shell text as lines of simple commands, and the words that no expansion can change. -/

namespace Codery.Shell

variable {s : List Char}

/-- The simple commands of a text that is nothing but lines of them; `line` is what the current one
has so far. -/
def commandsFrom (line : List Word) : List Token → Option (List (List Word))
  | [] => some (if line = [] then [] else [line])
  | .word w :: ts => commandsFrom (line ++ [w]) ts
  | .newline :: ts =>
    (commandsFrom [] ts).map fun rest => if line = [] then rest else line :: rest
  | .op _ :: _ => none

def commands (text : List Char) : Option (List (List Word)) :=
  (tokens text).bind (commandsFrom [])

theorem commandsFrom_line {line ws : List Word} {ts : List Token} (nonempty : line ++ ws ≠ []) :
    commandsFrom line (ws.map .word ++ .newline :: ts) =
      (commandsFrom [] ts).map ((line ++ ws) :: ·) := by
  induction ws generalizing line with
  | nil =>
    rw [List.append_nil] at nonempty ⊢
    simp [commandsFrom, nonempty]
  | cons w ws ih =>
    rw [List.map_cons, List.cons_append, commandsFrom, ih (by simp), List.append_assoc]
    rfl

@[simp] theorem commandsFrom_blank {ts : List Token} :
    commandsFrom [] (.newline :: ts) = commandsFrom [] ts := by
  simp [commandsFrom]

/-- Lines of one command each. -/
theorem commandsFrom_lines {cmds : List (List Word)} {ts : List Token}
    (nonempty : ∀ ws ∈ cmds, ws ≠ []) :
    commandsFrom [] (cmds.flatMap (fun ws => ws.map .word ++ [.newline]) ++ ts) =
      (commandsFrom [] ts).map (cmds ++ ·) := by
  induction cmds with
  | nil => simp
  | cons ws cmds ih =>
    obtain ⟨here, rest⟩ := List.forall_mem_cons.mp nonempty
    rw [List.flatMap_cons, List.append_assoc, List.append_assoc, List.singleton_append,
      commandsFrom_line (by simpa using here), ih rest, Option.map_map]
    rfl

/-- The words of the commands are words of the text. -/
theorem mem_of_commandsFrom {line : List Word} {ts : List Token} {cmds : List (List Word)}
    (split : commandsFrom line ts = some cmds) {cmd : List Word} {w : Word} (mem : cmd ∈ cmds)
    (arg : w ∈ cmd) : w ∈ line ∨ Token.word w ∈ ts := by
  induction ts generalizing line cmds with
  | nil =>
    cases split
    split at mem
    · cases mem
    · cases List.mem_singleton.mp mem
      exact .inl arg
  | cons t ts ih =>
    cases t with
    | word v =>
      obtain here | there := ih split mem
      · cases List.mem_append.mp here with
        | inl here => exact .inl here
        | inr here =>
          cases List.mem_singleton.mp here
          exact .inr List.mem_cons_self
      · exact .inr (List.mem_cons_of_mem _ there)
    | newline =>
      obtain ⟨rest, later, rfl⟩ := Option.map_eq_some_iff.mp split
      have inRest (mem : cmd ∈ rest) : w ∈ line ∨ Token.word w ∈ .newline :: ts := by
        obtain ⟨⟨⟩⟩ | there := ih later mem
        exact .inr (List.mem_cons_of_mem _ there)
      split at mem
      · exact inRest mem
      · cases List.mem_cons.mp mem with
        | inl same =>
          subst same
          exact .inl arg
        | inr mem => exact inRest mem
    | op c => cases split

theorem read_of_commands {cmds : List (List Word)} (split : commands s = some cmds)
    {cmd : List Word} {w : Word} (mem : cmd ∈ cmds) (arg : w ∈ cmd) : Word.Read w := by
  obtain ⟨ts, read, lines⟩ := Option.bind_eq_some_iff.mp split
  obtain ⟨⟨⟩⟩ | there := mem_of_commandsFrom lines mem arg
  exact tokens_read read w there

/-! ### Expansions -/

/-- Where a tilde may begin a tilde-prefix: at the start of a word and, in an assignment, behind its
`=` and behind each `:` from there. -/
inductive Place
  | first
  | name
  | value (fresh : Bool)
  | other
  deriving DecidableEq

def Place.next : Place → Piece → Place
  | .first, .char c false => if isNameStart c then .name else .other
  | .name, .char c false =>
    if c = '=' then .value true else if isName c then .name else .other
  | .value _, .char c false => .value (c == ':')
  | .value _, _ => .value false
  | _, _ => .other

def Place.tilde : Place → Bool
  | .first => true
  | .value fresh => fresh
  | _ => false

/-- The characters that make a word a pattern for the names of files. -/
def isPattern (c : Char) : Bool := c == '*' || c == '?' || c == '['

def Piece.fixed? (place : Place) : Piece → Option Char
  | .param _ _ => none
  | .char c true => some c
  | .char c false => if isPattern c || (c == '~' && place.tilde) then none else some c

/-- The text a word stands for, if nothing in it is open to an expansion. -/
def Word.valueFrom (place : Place) : Word → Option (List Char)
  | [] => some []
  | p :: w => (p.fixed? place).bind fun c => (valueFrom (place.next p) w).map (c :: ·)

def Word.value? (w : Word) : Option (List Char) := Word.valueFrom .first w

variable {place : Place} {v w : Word}

theorem valueFrom_append :
    Word.valueFrom place (v ++ w) =
      (Word.valueFrom place v).bind fun a =>
        (Word.valueFrom (v.foldl Place.next place) w).map (a ++ ·) := by
  induction v generalizing place with
  | nil => simp [Word.valueFrom]
  | cons p v ih =>
    simp only [List.cons_append, Word.valueFrom, ih, List.foldl_cons]
    cases p.fixed? place with
    | none => rfl
    | some c => cases Word.valueFrom (place.next p) v <;> simp [Function.comp_def]

theorem valueFrom_quoted : Word.valueFrom place (Word.quoted s) = some s := by
  induction s generalizing place with
  | nil => rfl
  | cons c s ih =>
    have rest : Word.valueFrom (place.next (.char c true)) (s.map (.char · true)) = some s := ih
    simp [Word.quoted, Word.valueFrom, Piece.fixed?, rest]

@[simp] theorem value?_quoted : (Word.quoted s).value? = some s := valueFrom_quoted

theorem eq_of_valueFrom_literal {a : List Char}
    (fixed : Word.valueFrom place (Word.literal s) = some a) : a = s := by
  induction s generalizing place a with
  | nil =>
    cases fixed
    rfl
  | cons c s ih =>
    obtain ⟨e, here, later⟩ := Option.bind_eq_some_iff.mp fixed
    obtain ⟨b, rest, rfl⟩ := Option.map_eq_some_iff.mp later
    simp only [Piece.fixed?] at here
    split at here
    · cases here
    · cases here
      rw [ih rest]

/-! ### Text that is put into a word without quotes -/

/-- Written without quotes at the start of a word, `k` stands for itself: no character of it is
special, it does not begin a comment, and nothing in it is open to an expansion. -/
structure Bare (k : List Char) : Prop where
  literal : ∀ c ∈ k, isLiteral c = true
  noComment : k.head? ≠ some '#'
  fixed : (Word.literal k).value? = some k

/-- `k=v`, with `v` in quotes. -/
def Word.assign (k v : List Char) : Word := Word.literal k ++ Word.literal ['='] ++ Word.quoted v

theorem value?_assign {k v : List Char} :
    (Word.assign k v).value? = some (k ++ '=' :: v) ↔ (Word.literal k).value? = some k := by
  have equals {place : Place} : Word.valueFrom place (Word.literal ['=']) = some ['='] := by
    cases place <;> rfl
  have whole : (Word.assign k v).value? = (Word.literal k).value?.map (· ++ '=' :: v) := by
    simp only [Word.value?, Word.assign, valueFrom_append, equals, valueFrom_quoted]
    cases Word.valueFrom .first (Word.literal k) <;> simp
  rw [whole]
  constructor
  · intro same
    obtain ⟨a, fixed, _⟩ := Option.map_eq_some_iff.mp same
    rw [fixed, eq_of_valueFrom_literal fixed]
  · intro fixed
    rw [fixed]
    rfl

theorem run_assign {k v : List Char} (bare : Bare k) (noNul : '\x00' ∉ v) :
    run start (k ++ '=' :: quote v) = some (⟨.plain, some (Word.assign k v)⟩, []) := by
  have name : run start (k ++ ['=']) =
      some (⟨.plain, some (Word.literal (k ++ ['=']))⟩, []) := by
    refine run_start_literal (fun c mem => ?_) (by simp) ?_
    · cases List.mem_append.mp mem with
      | inl mem => exact bare.literal c mem
      | inr mem =>
        cases List.mem_singleton.mp mem
        decide
    · cases k with
      | nil => decide
      | cons c k => exact bare.noComment
  have value := run_trans name (run_quote noNul)
  simpa [Word.assign, Word.literal] using value

theorem Word.Read.of_quoted {v : List Char} (read : Word.Read (Word.quoted v)) : '\x00' ∉ v :=
  fun mem => (read.pieces _ (List.mem_map_of_mem mem)).1 rfl

/-- What is read as `k=v` was written with a `k` of ordinary characters, and has no NUL. -/
theorem Word.Read.of_assign {k v : List Char} (read : Word.Read (Word.assign k v)) :
    (∀ c ∈ k, isLiteral c = true) ∧ k.head? ≠ some '#' ∧ '\x00' ∉ v := by
  refine ⟨fun c mem => ?_, fun hash => ?_, fun mem => ?_⟩
  · have piece : Piece.char c false ∈ Word.assign k v := by
      simp [Word.assign, Word.literal, mem]
    exact (read.pieces _ piece).2 rfl
  · cases k with
    | nil => cases hash
    | cons c k =>
      cases hash
      exact read.head rfl
  · have piece : Piece.char '\x00' true ∈ Word.assign k v := by
      simp [Word.assign, Word.quoted, mem]
    exact (read.pieces _ piece).1 rfl

end Codery.Shell
