/- digest: The shell tool: its lists, its detection of injections, and its two ways to run a command. -/

import Gyre.Lib.Lines
import Gyre.Tools.Builtin.Call

set_option autoImplicit false
set_option relaxedAutoImplicit false

namespace Gyre.Tools.Builtin

open Gyre.Lib Gyre.Llm

/-- Maximum output size before truncation (64KB). -/
def maxOutputSize : Nat := 64 * 1024

/-- Commands that are always blocked for safety. -/
def blockedCommands : List String :=
  ["rm -rf /", "rm -rf /*", ":()\x7b :|:& \x7d;:", "dd if=/dev/zero", "mkfs", "chmod -R 777 /",
    "> /dev/sda", "curl | sh", "wget | sh", "curl | bash", "wget | bash"]

/-- Patterns that indicate potentially dangerous commands. -/
def dangerousPatterns : List String :=
  ["sudo ", "doas ", " | sh", " | bash", " | zsh", "eval ", "$(curl", "$(wget", "/etc/passwd",
    "/etc/shadow", "~/.ssh", ".bash_history", "id_rsa"]

/-- Patterns that should never be auto-approved, even if the user chose to always approve. -/
def neverAutoApprovePatterns : List String :=
  ["rm -rf", "rm -fr", "chmod -r 777", "chmod 777", "chown -r", "shutdown", "reboot", "poweroff",
    "init 0", "init 6", "iptables", "nft ", "useradd", "userdel", "passwd", "visudo", "crontab",
    "systemctl disable", "launchctl unload", "kill -9", "killall", "pkill", "docker rm",
    "docker rmi", "docker system prune", "git push --force", "git push -f", "git reset --hard",
    "git clean -f", "DROP TABLE", "DROP DATABASE", "TRUNCATE", "DELETE FROM"]

/-- Environment variables safe to forward to child processes. -/
def safeEnvVars : List String :=
  ["PATH", "HOME", "USER", "LOGNAME", "SHELL", "TERM", "COLORTERM", "LANG", "LC_ALL", "LC_CTYPE",
    "LC_MESSAGES", "PWD", "TMPDIR", "TMP", "TEMP", "XDG_RUNTIME_DIR", "XDG_DATA_HOME",
    "XDG_CONFIG_HOME", "XDG_CACHE_HOME", "CARGO_HOME", "RUSTUP_HOME", "NODE_PATH",
    "NPM_CONFIG_PREFIX", "EDITOR", "VISUAL", "SystemRoot", "SYSTEMROOT", "ComSpec", "PATHEXT",
    "APPDATA", "LOCALAPPDATA", "USERPROFILE", "ProgramFiles", "ProgramFiles(x86)", "WINDIR"]

section Detection

/-- A text contains a pattern. -/
def has (text : List Char) (pattern : String) : Bool := Text.contains pattern.toList text

/-- `requires_explicit_approval`. -/
def requiresExplicitApproval (command : List Char) : Bool :=
  let lower := Text.toLowercase command
  neverAutoApprovePatterns.any fun p => Text.contains (Text.toLowercase p.toList) lower

/-- `match_indices`: for each occurrence, the character before it and the text behind it. Occurrences
do not overlap; `skip` characters still belong to the one before. -/
def matchPlaces (pattern : List Char) :
    (skip : Nat) → (previous : Option Char) → List Char → List (Option Char × List Char)
  | _, _, [] => []
  | skip + 1, _, c :: rest => matchPlaces pattern skip (some c) rest
  | 0, previous, c :: rest =>
    if pattern.isPrefixOf (c :: rest) then
      (previous, (c :: rest).drop pattern.length) ::
        matchPlaces pattern (pattern.length - 1) (some c) rest
    else matchPlaces pattern 0 (some c) rest

/-- `has_pipe_to`: the interpreter is followed by the end or a word boundary. -/
def hasPipeTo (lower : List Char) (shell : String) : Bool :=
  ["| ", "|"].any fun pipe =>
    (matchPlaces (pipe ++ shell).toList 0 none lower).any fun place =>
      match place.2.head? with
      | none => true
      | some c => [' ', '\t', '\n', ';', '|', '&', ')'].contains c

/-- `contains_shell_pipe`. -/
def containsShellPipe (lower : List Char) : Bool :=
  ["sh", "bash", "zsh", "dash", "/bin/sh", "/bin/bash"].any (hasPipeTo lower)

/-- `has_command_substitution`. -/
def hasCommandSubstitution (s : List Char) : Bool := has s "$(" || s.contains '\x60'

/-- `has_command_token`: the token is at the start or behind white space or a separator. -/
def hasCommandToken (lower : List Char) (token : String) : Bool :=
  (matchPlaces token.toList 0 none lower).any fun place =>
    match place.1 with
    | none => true
    | some before => [' ', '\t', '|', ';', '&', '\n', '('].contains before

/-- `detect_command_injection`. -/
def detectCommandInjection (cmd : List Char) : Option String :=
  if cmd.contains '\x00' then some "null byte in command"
  else
    let lower := Text.toLowercase cmd
    if (has lower "base64 -d" || has lower "base64 --decode") && containsShellPipe lower then
      some "base64 decode piped to shell"
    else if (has lower "printf" || has lower "echo -e" || has lower "echo $'") &&
        (has lower "\\x" || has lower "\\0") && containsShellPipe lower then
      some "encoded escape sequences piped to shell"
    else if (has lower "xxd -r" || hasCommandToken lower "od ") && containsShellPipe lower then
      some "binary decode piped to shell"
    else if (hasCommandToken lower "dig " || hasCommandToken lower "nslookup " ||
        hasCommandToken lower "host ") && hasCommandSubstitution lower then
      some "potential DNS exfiltration via command substitution"
    else if (hasCommandToken lower "nc " || hasCommandToken lower "ncat " ||
        hasCommandToken lower "netcat ") && (lower.contains '|' || lower.contains '<') then
      some "netcat with data piping"
    else if has lower "curl" && (has lower "-d @" || has lower "-d@" || has lower "--data @" ||
        has lower "--data-binary @" || has lower "--upload-file") then
      some "curl posting file contents"
    else if has lower "wget" && has lower "--post-file" then some "wget posting file contents"
    else if (has lower "| rev" || has lower "|rev") && containsShellPipe lower then
      some "string reversal piped to shell"
    else none

end Detection

inductive SandboxPolicy where
  | readOnly
  | workspaceWrite
  | fullAccess
  deriving DecidableEq, Repr

/-- What the tool asks of its sandbox manager. -/
structure SandboxManager where
  isInitialized : Bool
  enabled : Bool
  deriving DecidableEq, Repr

structure ShellTool where
  workingDir : Option String
  timeout : Nat
  allowDangerous : Bool
  sandbox : Option SandboxManager
  sandboxPolicy : SandboxPolicy
  deriving DecidableEq, Repr

/-- What a command comes back with: its output and exit code, an error, or nothing in time. -/
inductive CommandEnd where
  | finished (output : List Char) (exitCode : Int)
  | failed (reason : String)
  | timedOut
  deriving DecidableEq, Repr

/-- A command that is run: in the sandbox, or by a shell on the host. -/
inductive ShellRun where
  | sandboxed (cmd : List Char) (workdir : String) (policy : SandboxPolicy)
  | direct (program : String) (args : List (List Char)) (env : List (String × String))
      (workdir : String)
  deriving DecidableEq, Repr

/-- What a call meets: the process's own directory and environment, and how runs end. A shell that
cannot be started is an error of its own. -/
structure ShellWorld where
  windows : Bool
  currentDir : Option String
  env : String → Option String
  spawnError : Option String
  runEnd : ShellRun → CommandEnd

/-- `truncate_output`. -/
def truncateOutput (s : List Char) : List Char :=
  let len := Text.byteLen s
  if len ≤ maxOutputSize then s
  else
    let half := maxOutputSize / 2
    let tailStart := (Text.cutBytes (len - half) s).length
    Text.cutBytes half s ++ "\n\n... [truncated ".toList ++ Nat.toDigits 10 (len - maxOutputSize) ++
      " bytes] ...\n\n".toList ++ s.drop tailStart

/-- `truncate_for_error`. -/
def truncateForError (s : List Char) : List Char :=
  if s.length ≤ 100 then s else s.take 100 ++ "...".toList

namespace ShellTool

variable (t : ShellTool)

/-- `is_blocked`. -/
def isBlocked (cmd : List Char) : Option String :=
  let normalized := Text.toLowercase cmd
  if blockedCommands.any (has normalized) then some "Command contains blocked pattern"
  else if !t.allowDangerous && dangerousPatterns.any (has normalized) then
    some "Command contains potentially dangerous pattern"
  else none

/-- `execute_sandboxed`. -/
def executeSandboxed (w : ShellWorld) (cmd : List Char) (workdir : String) (timeout : Nat) :
    Except CallError (List Char × Int) × List ShellRun :=
  let run := ShellRun.sandboxed cmd workdir t.sandboxPolicy
  match w.runEnd run with
  | .finished output exitCode => (.ok (truncateOutput output, exitCode), [run])
  | .failed e => (.error (.executionFailed s!"Sandbox error: {e}"), [run])
  | .timedOut => (.error (.timeout timeout), [run])

/-- `execute_direct`: only known-safe variables are forwarded, and what the caller provides. -/
def executeDirect (w : ShellWorld) (cmd : List Char) (workdir : String) (timeout : Nat)
    (extraEnv : List (String × String)) : Except CallError (List Char × Int) × List ShellRun :=
  let env := (safeEnvVars.filterMap fun var => (w.env var).map fun value => (var, value)) ++ extraEnv
  let run :=
    if w.windows then ShellRun.direct "cmd" ["/C".toList, cmd] env workdir
    else ShellRun.direct "sh" ["-c".toList, cmd] env workdir
  match w.spawnError with
  | some e => (.error (.executionFailed s!"Failed to spawn command: {e}"), [run])
  | none =>
    match w.runEnd run with
    | .finished output exitCode => (.ok (truncateOutput output, exitCode), [run])
    | .failed e => (.error (.executionFailed s!"Command execution failed: {e}"), [run])
    | .timedOut => (.error (.timeout timeout), [run])

/-- `execute_command`, with the commands that are run. -/
def executeCommand (w : ShellWorld) (cmd : List Char) (workdir : Option String) (timeout : Option Nat)
    (extraEnv : List (String × String)) : Except CallError (List Char × Int) × List ShellRun :=
  match t.isBlocked cmd with
  | some reason =>
    (.error (.notAuthorized s!"{reason}: {String.ofList (truncateForError cmd)}"), [])
  | none =>
    match detectCommandInjection cmd with
    | some reason =>
      (.error (.notAuthorized
        s!"Command injection detected ({reason}): {String.ofList (truncateForError cmd)}"), [])
    | none =>
      let cwd := (workdir.or t.workingDir).getD (w.currentDir.getD ".")
      let timeoutDuration := timeout.getD t.timeout
      match t.sandbox with
      | some sandbox =>
        if sandbox.isInitialized || sandbox.enabled then
          t.executeSandboxed w cmd cwd timeoutDuration
        else executeDirect w cmd cwd timeoutDuration extraEnv
      | none => executeDirect w cmd cwd timeoutDuration extraEnv

end ShellTool

/-- The command in the parameters of a call, which may be an object or the text of one. -/
def commandOf (serde : Serde) (params : Json) : Option String :=
  ((params.get "command").bind Json.asStr).or
    ((params.asStr.bind serde.fromStr).bind fun v => (v.get "command").bind Json.asStr)

/-- `requires_approval_for`. -/
def requiresApprovalFor (serde : Serde) (params : Json) : Bool :=
  match commandOf serde params with
  | some cmd => requiresExplicitApproval cmd.toList
  | none => false

end Gyre.Tools.Builtin
