import Mathlib.Data.List.Basic

/-! Shell text read into words, as a POSIX shell does: quoting, comments, line continuations, and
parameters `$name`.  Other expansions, input redirections (which may begin a here-document) and NUL
are not read: the reader stops at them. -/

namespace Codery.Shell

/-- A character of a word, or a parameter; `quoted` tells whether quotes or a backslash have taken
its special meaning away. -/
inductive Piece
  | char (c : Char) (quoted : Bool)
  | param (name : List Char) (quoted : Bool)
  deriving DecidableEq

abbrev Word := List Piece

inductive Token
  | word (w : Word)
  | newline
  | op (c : Char)
  deriving DecidableEq

inductive Mode
  | plain
  | single
  | double
  | escape (inDouble : Bool)
  | dollar (inDouble : Bool)
  | param (inDouble : Bool) (name : List Char)
  | comment
  deriving DecidableEq

structure State where
  mode : Mode
  /-- The word being read. -/
  word : Option Word
  deriving DecidableEq

def start : State := ⟨.plain, none⟩

def isBlank (c : Char) : Bool := c == ' ' || c == '\t'

def isOperator (c : Char) : Bool := [';', '&', '|', '(', ')', '>'].contains c

def isNameStart (c : Char) : Bool := c.isAlpha || c == '_'

def isName (c : Char) : Bool := c.isAlphanum || c == '_'

/-- What the reader stops at: NUL, the start of a command substitution, a redirection. -/
def isUnread (c : Char) : Bool := ['\x00', '\x60', '<'].contains c

def extend (w : Option Word) (p : Piece) : Option Word := some (w.getD [] ++ [p])

/-- The word ends, and `out` follows it. -/
def delimit (w : Option Word) (out : List Token) : State × List Token :=
  (start, (w.map Token.word).toList ++ out)

/-- Empty quotes before a `#` or a `~` keep it from beginning a comment or a tilde-prefix. -/
def isDisarmed (w : Option Word) (c : Char) : Bool := (c == '#' || c == '~') && w == some []

def plainStep (w : Option Word) (c : Char) : Option (State × List Token) :=
  if isUnread c then none
  else if c = '\x27' then some (⟨.single, some (w.getD [])⟩, [])
  else if c = '"' then some (⟨.double, some (w.getD [])⟩, [])
  else if c = '\\' then some (⟨.escape false, w⟩, [])
  else if c = '$' then some (⟨.dollar false, w⟩, [])
  else if isBlank c then some (delimit w [])
  else if c = '\n' then some (delimit w [.newline])
  else if isOperator c then some (delimit w [.op c])
  else if c = '#' ∧ w = none then some (⟨.comment, none⟩, [])
  else some (⟨.plain, extend w (.char c (isDisarmed w c))⟩, [])

def doubleStep (w : Option Word) (c : Char) : Option (State × List Token) :=
  if c = '\x00' ∨ c = '\x60' then none
  else if c = '"' then some (⟨.plain, w⟩, [])
  else if c = '\\' then some (⟨.escape true, w⟩, [])
  else if c = '$' then some (⟨.dollar true, w⟩, [])
  else some (⟨.double, extend w (.char c true)⟩, [])

/-- The step in double quotes, or outside quotes. -/
def baseStep (inDouble : Bool) : Option Word → Char → Option (State × List Token) :=
  if inDouble then doubleStep else plainStep

def singleStep (w : Option Word) (c : Char) : Option (State × List Token) :=
  if c = '\x00' then none
  else if c = '\x27' then some (⟨.plain, w⟩, [])
  else some (⟨.single, extend w (.char c true)⟩, [])

def Mode.base (inDouble : Bool) : Mode := if inDouble then .double else .plain

/-- After a backslash.  Between double quotes it is special before few characters only. -/
def escapeStep (inDouble : Bool) (w : Option Word) (c : Char) : Option (State × List Token) :=
  if c = '\x00' then none
  else if c = '\n' then some (⟨.base inDouble, w⟩, [])
  else if inDouble && !(['$', '\x60', '"', '\\'].contains c) then
    some (⟨.base inDouble, extend (extend w (.char '\\' true)) (.char c true)⟩, [])
  else some (⟨.base inDouble, extend w (.char c true)⟩, [])

def step (st : State) (c : Char) : Option (State × List Token) :=
  match st.mode with
  | .plain => plainStep st.word c
  | .single => singleStep st.word c
  | .double => doubleStep st.word c
  | .escape inDouble => escapeStep inDouble st.word c
  | .dollar inDouble =>
    if isNameStart c then some (⟨.param inDouble [c], st.word⟩, []) else none
  | .param inDouble name =>
    if isName c then some (⟨.param inDouble (name ++ [c]), st.word⟩, [])
    else baseStep inDouble (extend st.word (.param name inDouble)) c
  | .comment =>
    if c = '\x00' then none
    else if c = '\n' then some (start, [.newline])
    else some (st, [])

def run (st : State) : List Char → Option (State × List Token)
  | [] => some (st, [])
  | c :: cs =>
    (step st c).bind fun a => (run a.1 cs).map fun b => (b.1, a.2 ++ b.2)

/-- The end of the text: not within quotes. -/
def State.finish (st : State) : Option (List Token) :=
  match st.mode with
  | .plain => some (st.word.map Token.word).toList
  | .param false name => some [.word (st.word.getD [] ++ [.param name false])]
  | .comment => some []
  | _ => none

def tokens (text : List Char) : Option (List Token) :=
  (run start text).bind fun a => a.1.finish.map (a.2 ++ ·)

variable {st st' st'' : State} {xs ys s : List Char} {out out' : List Token} {w : Option Word}
  {c : Char}

theorem run_append :
    run st (xs ++ ys) =
      (run st xs).bind fun a => (run a.1 ys).map fun b => (b.1, a.2 ++ b.2) := by
  induction xs generalizing st with
  | nil => simp [run]
  | cons c xs ih =>
    simp only [List.cons_append, run]
    cases step st c with
    | none => rfl
    | some a =>
      simp only [Option.bind_some, ih]
      cases run a.1 xs with
      | none => rfl
      | some b =>
        simp only [Option.bind_some, Option.map_some, Option.map_map]
        refine congrArg (Option.map · _) (funext fun e => ?_)
        simp

theorem run_trans (first : run st xs = some (st', out)) (second : run st' ys = some (st'', out')) :
    run st (xs ++ ys) = some (st'', out ++ out') := by
  rw [run_append, first, Option.bind_some, second, Option.map_some]

theorem tokens_append (read : run start xs = some (start, out)) :
    tokens (xs ++ ys) = (tokens ys).map (out ++ ·) := by
  unfold tokens
  rw [run_append, read, Option.bind_some]
  cases run start ys with
  | none => rfl
  | some b => simp [Function.comp_def]

/-! ### Text that stands for itself -/

/-- The characters that stand for themselves outside quotes. -/
def isLiteral (c : Char) : Bool :=
  !(isUnread c || isBlank c || isOperator c || ['\x27', '"', '\\', '$', '\n'].contains c)

def Word.literal (s : List Char) : Word := s.map (.char · false)

def Word.quoted (s : List Char) : Word := s.map (.char · true)

theorem isLiteral_iff : isLiteral c = true ↔
    isUnread c = false ∧ c ≠ '\x27' ∧ c ≠ '"' ∧ c ≠ '\\' ∧ c ≠ '$' ∧ isBlank c = false ∧
      c ≠ '\n' ∧ isOperator c = false := by
  simp [isLiteral]
  tauto

theorem plainStep_literal (literal : isLiteral c = true) (inside : c = '#' → w ≠ none) :
    plainStep w c = some (⟨.plain, extend w (.char c (isDisarmed w c))⟩, []) := by
  obtain ⟨read, single, double, back, dollar, blank, newline, operator⟩ := isLiteral_iff.mp literal
  have word : ¬ (c = '#' ∧ w = none) := fun both => inside both.1 both.2
  simp [plainStep, read, single, double, back, dollar, blank, newline, operator, word]

theorem run_literal (literal : ∀ c ∈ s, isLiteral c = true) {v : Word} (begun : v ≠ []) :
    run ⟨.plain, some v⟩ s = some (⟨.plain, some (v ++ Word.literal s)⟩, []) := by
  induction s generalizing v with
  | nil => simp [run, Word.literal]
  | cons c s ih =>
    obtain ⟨here, rest⟩ := List.forall_mem_cons.mp literal
    have next : step ⟨.plain, some v⟩ c = some (⟨.plain, some (v ++ [.char c false])⟩, []) := by
      rw [step, plainStep_literal here fun _ => Option.some_ne_none v]
      simp [isDisarmed, begun, extend]
    rw [run, next, Option.bind_some, ih rest (by simp)]
    simp [Word.literal]

/-- A word that is not a comment. -/
theorem run_start_literal (literal : ∀ c ∈ s, isLiteral c = true) (nonempty : s ≠ [])
    (noComment : s.head? ≠ some '#') :
    run start s = some (⟨.plain, some (Word.literal s)⟩, []) := by
  cases s with
  | nil => exact absurd rfl nonempty
  | cons c s =>
    obtain ⟨here, rest⟩ := List.forall_mem_cons.mp literal
    have next : step start c = some (⟨.plain, some [.char c false]⟩, []) := by
      rw [step, start, plainStep_literal here fun hash => absurd (congrArg some hash) noComment]
      simp [isDisarmed, extend]
    rw [run, next, Option.bind_some, run_literal rest (by simp)]
    rfl

/-- `s` in single quotes, each `'` of it as `'\''`. -/
def quote (s : List Char) : List Char :=
  '\x27' :: s.flatMap (fun c => if c = '\x27' then ['\x27', '\\', '\x27', '\x27'] else [c]) ++
    ['\x27']

theorem run_single (noNul : '\x00' ∉ s) {v : Word} :
    run ⟨.single, some v⟩
        (s.flatMap fun c => if c = '\x27' then ['\x27', '\\', '\x27', '\x27'] else [c]) =
      some (⟨.single, some (v ++ Word.quoted s)⟩, []) := by
  induction s generalizing v with
  | nil => simp [run, Word.quoted]
  | cons c s ih =>
    obtain ⟨here, rest⟩ := not_or.mp (fun nul => noNul (List.mem_cons.mpr nul))
    have next : run ⟨.single, some v⟩
        (if c = '\x27' then ['\x27', '\\', '\x27', '\x27'] else [c]) =
          some (⟨.single, some (v ++ [.char c true])⟩, []) := by
      split
      case isTrue same =>
        subst same
        rfl
      case isFalse other =>
        simp [run, step, singleStep, extend, Ne.symm here, other]
    rw [List.flatMap_cons, run_trans next (ih rest)]
    simp [Word.quoted]

/-- Quoted text is read as itself, joined to what the word has so far. -/
theorem run_quote (noNul : '\x00' ∉ s) :
    run ⟨.plain, w⟩ (quote s) = some (⟨.plain, some (w.getD [] ++ Word.quoted s)⟩, []) := by
  have opened : run ⟨.plain, w⟩ ['\x27'] = some (⟨.single, some (w.getD [])⟩, []) := rfl
  have closed {v : Word} : run ⟨.single, some v⟩ ['\x27'] = some (⟨.plain, some v⟩, []) := rfl
  exact run_trans (run_trans opened (run_single noNul)) closed

theorem run_blank {v : Word} (blank : isBlank c = true) :
    run ⟨.plain, some v⟩ [c] = some (start, [.word v]) := by
  unfold isBlank at blank
  rw [Bool.or_eq_true, beq_iff_eq, beq_iff_eq] at blank
  obtain rfl | rfl := blank
  · rfl
  · rfl

theorem run_newline : run ⟨.plain, w⟩ ['\n'] = some (delimit w [.newline]) := by
  cases w <;> rfl

/-! ### What can be read -/

/-- No special character stands outside quotes, and NUL nowhere. -/
def Piece.Read : Piece → Prop
  | .char c quoted => c ≠ '\x00' ∧ (quoted = false → isLiteral c = true)
  | .param _ _ => True

/-- A word that text can be read as: not one that would have been a comment. -/
structure Word.Read (w : Word) : Prop where
  pieces : ∀ p ∈ w, p.Read
  head : w.head? ≠ some (.char '#' false)

def OptRead (w : Option Word) : Prop := ∀ v, w = some v → Word.Read v

def TokensRead (out : List Token) : Prop := ∀ w, Token.word w ∈ out → Word.Read w

/-- What a step from `w` gives can be read, if `w` could. -/
def StepRead (r : Option (State × List Token)) : Prop :=
  ∀ st out, r = some (st, out) → OptRead st.word ∧ TokensRead out

theorem OptRead.extend {p : Piece} (read : OptRead w) (piece : p.Read)
    (head : p = .char '#' false → w.getD [] ≠ []) : OptRead (extend w p) := by
  intro v same
  cases same
  cases w with
  | none =>
    refine ⟨fun q mem => ?_, fun hash => head (Option.some_inj.mp hash) rfl⟩
    cases List.mem_singleton.mp mem
    exact piece
  | some v =>
    obtain ⟨pieces, first⟩ := read v rfl
    refine ⟨fun q mem => ?_, ?_⟩
    · cases List.mem_append.mp mem with
      | inl inside => exact pieces q inside
      | inr here =>
        cases List.mem_singleton.mp here
        exact piece
    · cases v with
      | nil => exact fun hash => head (Option.some_inj.mp hash) rfl
      | cons q v => exact first

theorem OptRead.quoted (read : OptRead w) (noNul : c ≠ '\x00') :
    OptRead (Shell.extend w (.char c true)) :=
  read.extend ⟨noNul, nofun⟩ nofun

theorem OptRead.none : OptRead none := nofun

theorem StepRead.none : StepRead none := nofun

theorem StepRead.silent (read : OptRead st.word) : StepRead (some (st, [])) := by
  rintro _ _ ⟨⟩
  exact ⟨read, nofun⟩

theorem StepRead.delimit (read : OptRead w) (wordless : ∀ v, Token.word v ∉ out) :
    StepRead (some (delimit w out)) := by
  rintro _ _ ⟨⟩
  refine ⟨nofun, fun v mem => ?_⟩
  cases List.mem_append.mp mem with
  | inl here =>
    rw [Option.mem_toList, Option.map_eq_some_iff] at here
    obtain ⟨_, same, ⟨⟩⟩ := here
    exact read v same
  | inr mem => exact absurd mem (wordless v)

theorem OptRead.begun (read : OptRead w) : OptRead (some (w.getD [])) := by
  cases w with
  | none =>
    rintro _ ⟨⟩
    exact ⟨nofun, nofun⟩
  | some v => exact read

/-- A step that decides by a condition. -/
theorem StepRead.ite {p : Prop} [Decidable p] {r r' : Option (State × List Token)}
    (pos : p → StepRead r) (neg : ¬ p → StepRead r') : StepRead (if p then r else r') := by
  by_cases h : p
  · rw [if_pos h]
    exact pos h
  · rw [if_neg h]
    exact neg h

theorem plainStep_read (read : OptRead w) : StepRead (plainStep w c) := by
  refine .ite (fun _ => .none) fun known => ?_
  refine .ite (fun _ => .silent read.begun) fun single => ?_
  refine .ite (fun _ => .silent read.begun) fun double => ?_
  refine .ite (fun _ => .silent read) fun back => ?_
  refine .ite (fun _ => .silent read) fun dollar => ?_
  refine .ite (fun _ => .delimit read (by simp)) fun blank => ?_
  refine .ite (fun _ => .delimit read (by simp)) fun newline => ?_
  refine .ite (fun _ => .delimit read (by simp)) fun operator => ?_
  refine .ite (fun _ => .silent .none) fun word => ?_
  rw [Bool.not_eq_true] at known blank operator
  have literal : isLiteral c = true :=
    isLiteral_iff.mpr ⟨known, single, double, back, dollar, blank, newline, operator⟩
  refine .silent (read.extend ⟨?_, fun _ => literal⟩ fun hash empty => ?_)
  · rintro rfl
    exact absurd known (by decide)
  · injection hash with same armed
    subst same
    cases w with
    | none => exact word ⟨rfl, rfl⟩
    | some v =>
      cases (show v = [] from empty)
      exact absurd armed (by decide)

theorem doubleStep_read (read : OptRead w) : StepRead (doubleStep w c) := by
  refine .ite (fun _ => .none) fun known => ?_
  refine .ite (fun _ => .silent read) fun _ => ?_
  refine .ite (fun _ => .silent read) fun _ => ?_
  refine .ite (fun _ => .silent read) fun _ => ?_
  exact .silent (read.quoted (not_or.mp known).1)

theorem baseStep_read {inDouble : Bool} (read : OptRead w) : StepRead (baseStep inDouble w c) := by
  cases inDouble with
  | false => exact plainStep_read read
  | true => exact doubleStep_read read

theorem singleStep_read (read : OptRead w) : StepRead (singleStep w c) := by
  refine .ite (fun _ => .none) fun noNul => ?_
  exact .ite (fun _ => .silent read) fun _ => .silent (read.quoted noNul)

theorem escapeStep_read {inDouble : Bool} (read : OptRead w) :
    StepRead (escapeStep inDouble w c) := by
  refine .ite (fun _ => .none) fun noNul => ?_
  refine .ite (fun _ => .silent read) fun _ => ?_
  refine .ite (fun _ => ?_) fun _ => .silent (read.quoted noNul)
  exact .silent ((read.quoted (by decide)).quoted noNul)

theorem step_read (read : OptRead st.word) : StepRead (step st c) := by
  obtain ⟨mode, w⟩ := st
  cases mode with
  | plain => exact plainStep_read read
  | single => exact singleStep_read read
  | double => exact doubleStep_read read
  | escape inDouble => exact escapeStep_read read
  | dollar inDouble =>
    simp only [step]
    split
    · exact .silent read
    · exact .none
  | param inDouble name =>
    simp only [step]
    split
    · exact .silent read
    · exact baseStep_read (read.extend trivial nofun)
  | comment =>
    simp only [step]
    repeat' split
    · exact .none
    · exact .delimit .none (by simp)
    · exact .silent read

theorem run_read (read : OptRead st.word) (ran : run st s = some (st', out)) :
    OptRead st'.word ∧ TokensRead out := by
  induction s generalizing st out with
  | nil =>
    cases ran
    exact ⟨read, nofun⟩
  | cons c s ih =>
    obtain ⟨⟨mid, first⟩, next, ran⟩ := Option.bind_eq_some_iff.mp ran
    obtain ⟨⟨st'', second⟩, rest, same⟩ := Option.map_eq_some_iff.mp ran
    cases same
    obtain ⟨readMid, readFirst⟩ := step_read read _ _ next
    obtain ⟨readEnd, readSecond⟩ := ih readMid rest
    refine ⟨readEnd, fun w mem => ?_⟩
    cases List.mem_append.mp mem with
    | inl mem => exact readFirst w mem
    | inr mem => exact readSecond w mem

theorem finish_read (read : OptRead st.word) (done : st.finish = some out) : TokensRead out := by
  obtain ⟨mode, w⟩ := st
  unfold State.finish at done
  split at done
  · cases done
    intro v mem
    rw [Option.mem_toList, Option.map_eq_some_iff] at mem
    obtain ⟨_, same, ⟨⟩⟩ := mem
    exact read v same
  · next name _ =>
    cases done
    intro v mem
    cases List.mem_singleton.mp mem
    have last : OptRead (extend w (.param name false)) := read.extend (by trivial) nofun
    exact last _ rfl
  · cases done
    exact nofun
  · cases done

/-- Every word of a text is one that can be read. -/
theorem tokens_read (read : tokens s = some out) : TokensRead out := by
  obtain ⟨⟨st, first⟩, ran, done⟩ := Option.bind_eq_some_iff.mp read
  obtain ⟨last, ended, rfl⟩ := Option.map_eq_some_iff.mp done
  obtain ⟨readEnd, readFirst⟩ := run_read OptRead.none ran
  intro w mem
  cases List.mem_append.mp mem with
  | inl mem => exact readFirst w mem
  | inr mem => exact finish_read readEnd ended w mem

end Codery.Shell
