import Codery.Bundles
import Codery.Commands
import Codery.Shell.Commands

/-! The run script of an app as a shell reads it. -/

namespace Codery.Db

open Codery.Shell (Word Token Bare start run tokens commandsFrom)

variable {app : AppRecord} {s : String}

theorem toList_shellQuote : (shellQuote s).toList = Shell.quote s.toList := by
  simp [shellQuote, Shell.quote]

/-- A quoted text is one word, and the shell expands nothing in it. -/
theorem shellQuote_word (noNul : '\x00' ∉ s.toList) {sep : Char}
    (separates : sep = ' ' ∨ sep = '\t' ∨ sep = '\n') (rest : List Char) :
    (Word.quoted s.toList).value? = some s.toList ∧
      tokens ((shellQuote s).toList ++ sep :: rest) = (tokens rest).map fun ts =>
        .word (Word.quoted s.toList) :: (if sep = '\n' then [.newline] else []) ++ ts := by
  have quoted : run start (Shell.quote s.toList) =
      some (⟨.plain, some (Word.quoted s.toList)⟩, []) := Shell.run_quote noNul
  refine ⟨Shell.value?_quoted, ?_⟩
  rw [toList_shellQuote, ← List.singleton_append, ← List.append_assoc]
  obtain rfl | rfl | rfl := separates
  · exact Shell.tokens_append (Shell.run_trans quoted (Shell.run_blank rfl))
  · exact Shell.tokens_append (Shell.run_trans quoted (Shell.run_blank rfl))
  · exact Shell.tokens_append (Shell.run_trans quoted Shell.run_newline)

theorem shellQuote_word_hostile :
    tokens ((shellQuote "it's \"$HOME\" \\").toList ++ ['\n']) =
      some [.word (Word.quoted "it's \"$HOME\" \\".toList), .newline] :=
  (shellQuote_word (by decide) (.inr (.inr rfl)) []).2

/-! ### The commands of the script -/

def text (s : String) : Word := Word.literal s.toList

def sortedEnv (app : AppRecord) : List (String × String) :=
  (app.env.getD []).insertionSort (·.1 ≤ ·.1)

def preludeCommands : List (List Word) :=
  [[text ".", text "/usr/local/bin/s6-load-locale-env"],
    [text "export", text "PATH=" ++ Word.quoted "/nix/var/nix/profiles/default/bin:".toList ++
      [.param "PATH".toList true]],
    [text "export", text "HOME=/home/gem"]]

def exportCommand (pair : String × String) : List Word :=
  [text "export", Word.assign pair.1.toList pair.2.toList]

def cdCommand (app : AppRecord) : List Word := [text "cd", Word.quoted app.directory.toList]

def execCommand (app : AppRecord) : List Word :=
  [text "exec", text "/command/s6-setuidgid", Word.quoted app.user.toList, text "bash", text "-c",
    Word.quoted app.command.toList]

/-- The commands the script of an app is meant to have. -/
def script (app : AppRecord) : List (List Word) :=
  preludeCommands ++ (sortedEnv app).map exportCommand ++ [cdCommand app, execCommand app]

/-- The script is read as these commands, and each variable is exported with its value. -/
structure RunsAsMeant (app : AppRecord) : Prop where
  commands : Shell.commands (renderRun app).toList = some (script app)
  exports : ∀ pair ∈ app.env.getD [],
    (Word.assign pair.1.toList pair.2.toList).value? = some (pair.1 ++ "=" ++ pair.2).toList

/-- What the fields of an app have to be for that: keys that need no quotes, and no NUL. -/
structure Sound (app : AppRecord) : Prop where
  keys : ∀ pair ∈ app.env.getD [], Bare pair.1.toList
  values : ∀ pair ∈ app.env.getD [], '\x00' ∉ pair.2.toList
  directory : '\x00' ∉ app.directory.toList
  user : '\x00' ∉ app.user.toList
  command : '\x00' ∉ app.command.toList

theorem mem_sortedEnv {pair : String × String} :
    pair ∈ sortedEnv app ↔ pair ∈ app.env.getD [] := List.mem_insertionSort _

theorem mem_script_export {pair : String × String} (mem : pair ∈ app.env.getD []) :
    exportCommand pair ∈ script app :=
  List.mem_append_left _ (List.mem_append_right _ (List.mem_map_of_mem (mem_sortedEnv.mpr mem)))

/-- The command lines of `xs`, between blank ones, are `cmds`. -/
def Lines (xs : List Char) (cmds : List (List Word)) : Prop :=
  ∃ out, run start xs = some (start, out) ∧
    ∀ ts, commandsFrom [] (out ++ ts) = (commandsFrom [] ts).map (cmds ++ ·)

theorem Lines.nil : Lines [] [] := ⟨[], rfl, fun ts => by simp⟩

theorem Lines.append {xs ys : List Char} {cmds cmds' : List (List Word)} (first : Lines xs cmds)
    (second : Lines ys cmds') : Lines (xs ++ ys) (cmds ++ cmds') := by
  obtain ⟨out, ran, split⟩ := first
  obtain ⟨out', ran', split'⟩ := second
  refine ⟨out ++ out', Shell.run_trans ran ran', fun ts => ?_⟩
  rw [List.append_assoc, split, split', Option.map_map]
  simp [Function.comp_def]

theorem Lines.commands {xs : List Char} {cmds : List (List Word)} (lines : Lines xs cmds) :
    Shell.commands xs = some cmds := by
  obtain ⟨out, ran, split⟩ := lines
  have all := split []
  rw [List.append_nil] at all
  rw [Shell.commands, tokens, ran]
  simp [Shell.State.finish, start, all, commandsFrom]

/-- A command and its line end, and the blank line behind it. -/
theorem Lines.command {xs : List Char} (ws : List Word) {w : Word}
    (ran : run start xs = some (⟨.plain, some w⟩, ws.map .word)) :
    Lines (xs ++ "\n\n".toList) [ws ++ [w]] := by
  have ended : run ⟨.plain, some w⟩ "\n\n".toList =
      some (start, [.word w, .newline, .newline]) := by rfl
  refine ⟨_, Shell.run_trans ran ended, fun ts => ?_⟩
  have line : ws.map Token.word ++ [.word w, .newline, .newline] ++ ts =
      (ws ++ [w]).map .word ++ .newline :: .newline :: ts := by simp
  rw [line, Shell.commandsFrom_line (by simp), Shell.commandsFrom_blank]
  rfl

/-- What `render_run` starts with. -/
def preludeText : String :=
  "#!/bin/bash\n" ++
  ". /usr/local/bin/s6-load-locale-env\n" ++
  "export PATH=\"/nix/var/nix/profiles/default/bin:$PATH\"\n" ++
  "export HOME=/home/gem\n"

theorem prelude_lines : Lines preludeText.toList preludeCommands := by
  have ran : run start preludeText.toList = some (start, .newline ::
      preludeCommands.flatMap fun ws => ws.map .word ++ [.newline]) := by decide +kernel
  refine ⟨_, ran, fun ts => ?_⟩
  rw [List.cons_append, Shell.commandsFrom_blank, Shell.commandsFrom_lines (by decide +kernel)]

theorem export_line {pair : String × String} (bare : Bare pair.1.toList)
    (noNul : '\x00' ∉ pair.2.toList) : Lines (exportLine pair).toList [exportCommand pair] := by
  have command : run start "export ".toList = some (start, [.word (text "export")]) := by
    decide +kernel
  have line : (exportLine pair).toList =
      "export ".toList ++ (pair.1.toList ++ '=' :: Shell.quote pair.2.toList) ++ "\n\n".toList := by
    simp [exportLine, toList_shellQuote]
  rw [line]
  exact Lines.command [_] (Shell.run_trans command (Shell.run_assign bare noNul))

theorem export_lines {env : List (String × String)} (keys : ∀ pair ∈ env, Bare pair.1.toList)
    (values : ∀ pair ∈ env, '\x00' ∉ pair.2.toList) :
    Lines (String.join (env.map exportLine)).toList (env.map exportCommand) := by
  induction env with
  | nil => exact .nil
  | cons pair env ih =>
    obtain ⟨bare, keys⟩ := List.forall_mem_cons.mp keys
    obtain ⟨noNul, values⟩ := List.forall_mem_cons.mp values
    rw [List.map_cons, String.join_cons, String.toList_append]
    exact (export_line bare noNul).append (ih keys values)

theorem cd_line (noNul : '\x00' ∉ app.directory.toList) :
    Lines ("cd ".toList ++ Shell.quote app.directory.toList ++ "\n\n".toList) [cdCommand app] := by
  have command : run start "cd ".toList = some (start, [.word (text "cd")]) := by decide +kernel
  exact Lines.command [_] (Shell.run_trans command (Shell.run_quote noNul))

theorem exec_line (noNul : '\x00' ∉ app.user.toList) (noNul' : '\x00' ∉ app.command.toList) :
    Lines ("exec /command/s6-setuidgid ".toList ++ Shell.quote app.user.toList ++
      " bash -c ".toList ++ Shell.quote app.command.toList ++ "\n\n".toList) [execCommand app] := by
  have setuid : run start "exec /command/s6-setuidgid ".toList =
      some (start, [.word (text "exec"), .word (text "/command/s6-setuidgid")]) := by
    decide +kernel
  have user : run start (Shell.quote app.user.toList) = _ := Shell.run_quote noNul
  have bash {v : Word} : run ⟨.plain, some v⟩ " bash -c ".toList =
      some (start, [.word v, .word (text "bash"), .word (text "-c")]) := by rfl
  exact Lines.command [_, _, _, _, _] (Shell.run_trans
    (Shell.run_trans (Shell.run_trans setuid user) bash) (Shell.run_quote noNul'))

theorem renderRun_parts : renderRun app =
    preludeText ++ exportLines app.env ++ "cd " ++ shellQuote app.directory ++ "\n\n" ++
      "exec /command/s6-setuidgid " ++ shellQuote app.user ++ " bash -c " ++
      shellQuote app.command ++ "\n\n" := by
  unfold renderRun preludeText
  rfl

theorem renderRun_eq : (renderRun app).toList =
    preludeText.toList ++ (String.join ((sortedEnv app).map exportLine)).toList ++
      ("cd ".toList ++ Shell.quote app.directory.toList ++ "\n\n".toList) ++
      ("exec /command/s6-setuidgid ".toList ++ Shell.quote app.user.toList ++
        " bash -c ".toList ++ Shell.quote app.command.toList ++ "\n\n".toList) := by
  rw [renderRun_parts, exportLines]
  generalize preludeText = start, "cd " = cd, "\n\n" = ends,
    "exec /command/s6-setuidgid " = exec, " bash -c " = bash
  simp only [String.toList_append, toList_shellQuote, List.append_assoc]
  rfl

/-- The script is read as meant exactly if no key of the environment needs quotes, and no field has
a NUL. -/
theorem runsAsMeant_iff : RunsAsMeant app ↔ Sound app := by
  constructor
  · rintro ⟨split, exports⟩
    have read {cmd : List Word} (mem : cmd ∈ script app) {w : Word} (arg : w ∈ cmd) :
        Word.Read w := Shell.read_of_commands split mem arg
    have cd : cdCommand app ∈ script app := by simp [script]
    have exec : execCommand app ∈ script app := by simp [script]
    have ofExport {pair : String × String} (mem : pair ∈ app.env.getD []) :=
      (read (mem_script_export mem) (List.mem_cons_of_mem _ List.mem_cons_self)).of_assign
    exact
      { keys := fun pair mem =>
          { literal := (ofExport mem).1
            noComment := (ofExport mem).2.1
            fixed := Shell.value?_assign.mp (by simpa using exports pair mem) }
        values := fun pair mem => (ofExport mem).2.2
        directory := (read cd (by simp [cdCommand])).of_quoted
        user := (read exec (by simp [execCommand])).of_quoted
        command := (read exec (by simp [execCommand])).of_quoted }
  · intro sound
    refine ⟨?_, fun pair mem => ?_⟩
    · rw [renderRun_eq]
      have env := export_lines (fun pair mem => sound.keys pair (mem_sortedEnv.mp mem))
        (fun pair mem => sound.values pair (mem_sortedEnv.mp mem))
      have all := ((prelude_lines.append env).append (cd_line sound.directory)).append
        (exec_line sound.user sound.command)
      simpa [script] using all.commands
    · simpa using Shell.value?_assign.mpr (sound.keys pair mem).fixed

/-- An app whose variable has a line of its own in its name. -/
def hijack : Mcp.AddAppParams where
  name := "app"
  subdomain := "app"
  internalPort := 3000
  command := "npm start"
  directory := "/home/gem/projects/app"
  env := some [("A\ntouch /root/owned\nB", "1")]

/-- Its script runs that line, before the privileges are dropped. -/
theorem hijack_script :
    Shell.commands (renderRun hijack.record).toList = some (preludeCommands ++
        [[text "export", text "A"], [text "touch", text "/root/owned"],
          [Word.assign "B".toList "1".toList]] ++
        [cdCommand hijack.record] ++ [execCommand hijack.record]) ∧
      ¬ RunsAsMeant hijack.record := by
  have exported : Lines (String.join ((sortedEnv hijack.record).map exportLine)).toList
      [[text "export", text "A"], [text "touch", text "/root/owned"],
        [Word.assign "B".toList "1".toList]] := by
    have ran : run start (String.join ((sortedEnv hijack.record).map exportLine)).toList =
        some (start, [[text "export", text "A"], [text "touch", text "/root/owned"],
          [Word.assign "B".toList "1".toList]].flatMap (fun ws => ws.map .word ++ [.newline]) ++
            [.newline]) := by decide +kernel
    refine ⟨_, ran, fun ts => ?_⟩
    rw [List.append_assoc, Shell.commandsFrom_lines (by decide), List.singleton_append,
      Shell.commandsFrom_blank]
  have cd : Lines _ [cdCommand hijack.record] := cd_line (by decide)
  have exec : Lines _ [execCommand hijack.record] := exec_line (by decide) (by decide)
  have read := (((prelude_lines.append exported).append cd).append exec).commands
  rw [← renderRun_eq] at read
  refine ⟨read, fun meant => ?_⟩
  have same := Option.some_inj.mp (read.symm.trans meant.commands)
  exact absurd (congrArg List.length same) (by decide)

end Codery.Db
