import Oclaw.Lib.HashMap
import Oclaw.Lib.Text
import Oclaw.ToolsCore.Workspace

/-!
# The environment of a shell command

`BashTool::execute` of `crates/tools-core/src/tool.rs`: a command is started with the
variables that the arguments name, unless the block list has one of them. The list is
compared with the uppercase form of a name, so that its lowercase entries and its prefix
`BASH_FUNC_` do not match what they are there for.
-/

namespace Oclaw.ToolsCore

open Oclaw.Lib

/-! ## §1  The tool -/

structure BashTool : Type where
  timeoutSeconds : ℕ

def BashTool.new : BashTool := ⟨30⟩

structure BashArguments : Type where
  command : String
  timeoutSeconds : Option ℕ
  workingDir : Option String
  env : Option (HashMap String String)

/-- The variables, in the order in which the map is iterated. -/
def BashArguments.vars (args : BashArguments) : List (String × String) :=
  (args.env.map (fun m => m.entries.map (fun e => (e.1, e.2)))).getD []

/-- A process to be started. Of two variables with one name the later one counts. -/
structure Command : Type where
  program : String
  args : List String
  currentDir : Option String
  envs : List (String × String)

/-- How a command with a time limit ends. -/
inductive Ended : Type where
  | output (stdout stderr : String) (exitCode : Option ℤ)
  | failed (error : String)
  | timedOut

structure BashOutput : Type where
  stdout : String
  stderr : String
  exitCode : Option ℤ
  timedOut : Bool

/-- The surroundings of the tool: the system, how arguments are read, and its processes. -/
structure BashHost (J : Type) : Type where
  windows : Bool
  fromValue : J → Except String BashArguments
  output : Command → ℕ → Ended

def blockedEnv : List String :=
  ["LD_PRELOAD", "LD_LIBRARY_PATH", "DYLD_INSERT_LIBRARIES", "DYLD_LIBRARY_PATH",
    "DYLD_FRAMEWORK_PATH", "PATH", "HOME", "SHELL", "USER", "LOGNAME", "BASH_ENV", "ENV", "CDPATH",
    "GLOBIGNORE", "BASH_FUNC_", "PS4", "PROMPT_COMMAND", "PYTHONSTARTUP", "PERL5OPT", "RUBYOPT",
    "NODE_OPTIONS", "JAVA_TOOL_OPTIONS", "_JAVA_OPTIONS", "CLASSPATH", "GIT_SSH_COMMAND",
    "http_proxy", "https_proxy", "CURL_CA_BUNDLE"]

def isBlocked (up : Uppercase) (key : String) : Bool :=
  let keyUpper := up.text key
  blockedEnv.any (fun b =>
    keyUpper == b || startsWith keyUpper "LD_" || startsWith keyUpper "DYLD_")

/-- The loop over the variables. -/
def setEnv (up : Uppercase) (cmd : Command) : List (String × String) → Except ToolError Command
  | [] => .ok cmd
  | (key, value) :: rest =>
      if isBlocked up key then
        .error (.invalidInput s!"Environment variable '{key}' is blocked for security")
      else setEnv up { cmd with envs := cmd.envs ++ [(key, value)] } rest

section Execute

variable {J : Type} (host : BashHost J) (up : Uppercase) (tool : BashTool)

def shell (args : BashArguments) : Command :=
  if host.windows then ⟨"cmd", ["/C", args.command], args.workingDir, []⟩
  else ⟨"sh", ["-c", args.command], args.workingDir, []⟩

/-- The command that is started with the time limit, if any, and the result. -/
def BashTool.execute (arguments : J) :
    Option (Command × ℕ) × Except ToolError BashOutput :=
  match host.fromValue arguments with
  | .error e => (none, .error (.invalidInput e))
  | .ok args =>
      let timeoutSecs := args.timeoutSeconds.getD tool.timeoutSeconds
      match setEnv up (shell host args) args.vars with
      | .error e => (none, .error e)
      | .ok cmd =>
          (some (cmd, timeoutSecs),
            match host.output cmd timeoutSecs with
            | .output stdout stderr exitCode => .ok ⟨stdout, stderr, exitCode, false⟩
            | .failed e => .error (.executionFailed e)
            | .timedOut => .ok ⟨"", "Command timed out", none, true⟩)

end Execute

/-! ## §2  What is blocked -/

/-- No entry of the list is the name, ignoring case, and none of the prefixes is one of it. -/
def Safe (up : Uppercase) (key : String) : Prop :=
  (∀ b ∈ blockedEnv, up.text key ≠ up.text b) ∧
    ∀ pre ∈ ["LD_", "DYLD_", "BASH_FUNC_"], startsWith (up.text key) (up.text pre) = false

/-- The names that the list has, but not in capitals, and those with more than its prefix. -/
def Missed (up : Uppercase) (key : String) : Prop :=
  up.text key = up.text "http_proxy" ∨ up.text key = up.text "https_proxy" ∨
    startsWith (up.text key) "BASH_FUNC_" = true ∧ up.text key ≠ "BASH_FUNC_"

section Blocked

variable {up : Uppercase} {key : String} {cmd : Command} {vars : List (String × String)}

theorem isBlocked_iff :
    isBlocked up key = true ↔ up.text key ∈ blockedEnv ∨ startsWith (up.text key) "LD_" = true ∨
      startsWith (up.text key) "DYLD_" = true := by
  simp only [isBlocked, List.any_eq_true, Bool.or_eq_true, beq_iff_eq, or_assoc]
  constructor
  · rintro ⟨b, hb, rfl | hlead⟩
    · exact Or.inl hb
    · exact Or.inr hlead
  · rintro (hb | hlead)
    · exact ⟨_, hb, Or.inl rfl⟩
    · exact ⟨"PATH", by decide, Or.inr hlead⟩

theorem blockedEnv_uppercase :
    ∀ b ∈ blockedEnv, b = "http_proxy" ∨ b = "https_proxy" ∨ isAsciiUppercase b = true := by
  decide

theorem lead_uppercase : ∀ pre ∈ ["LD_", "DYLD_", "BASH_FUNC_"], isAsciiUppercase pre = true := by
  decide

/-- The names that get through are safe but for those that the list means and misses. -/
theorem safe_iff (h : isBlocked up key = false) : Safe up key ↔ ¬ Missed up key := by
  have hpass : ¬ (up.text key ∈ blockedEnv ∨ startsWith (up.text key) "LD_" = true ∨
      startsWith (up.text key) "DYLD_" = true) := by
    rw [← isBlocked_iff, h]
    simp
  have hlead (pre : String) (hpre : pre ∈ ["LD_", "DYLD_", "BASH_FUNC_"]) :
      up.text pre = pre := up.text_eq_self (lead_uppercase pre hpre)
  constructor
  · rintro ⟨hlist, hprefixes⟩ (hhttp | hhttps | ⟨hfunc, -⟩)
    · exact hlist "http_proxy" (by decide) hhttp
    · exact hlist "https_proxy" (by decide) hhttps
    · have hnone := hprefixes "BASH_FUNC_" (by decide)
      rw [hlead "BASH_FUNC_" (by decide), hfunc] at hnone
      cases hnone
  · intro hmissed
    constructor
    · intro b hb heq
      rcases blockedEnv_uppercase b hb with rfl | rfl | hupper
      · exact hmissed (Or.inl heq)
      · exact hmissed (Or.inr (Or.inl heq))
      · rw [up.text_eq_self hupper] at heq
        exact hpass (Or.inl (heq ▸ hb))
    · intro pre hpre
      rw [hlead pre hpre, ← Bool.not_eq_true]
      intro hstarts
      simp only [List.mem_cons, List.not_mem_nil, or_false] at hpre
      rcases hpre with rfl | rfl | rfl
      · exact hpass (Or.inr (Or.inl hstarts))
      · exact hpass (Or.inr (Or.inr hstarts))
      · refine hmissed (Or.inr (Or.inr ⟨hstarts, ?_⟩))
        intro heq
        exact hpass (Or.inl (by rw [heq]; decide))

/-- **Spec of the loop**: the first blocked variable ends it. -/
theorem setEnv_eq (up : Uppercase) (cmd : Command) (vars : List (String × String)) :
    setEnv up cmd vars =
      match vars.find? (fun v => isBlocked up v.1) with
      | some v =>
          .error (.invalidInput s!"Environment variable '{v.1}' is blocked for security")
      | none => .ok { cmd with envs := cmd.envs ++ vars } := by
  induction vars generalizing cmd with
  | nil => simp [setEnv]
  | cons v vars ih =>
      rw [setEnv, List.find?_cons]
      cases hblocked : isBlocked up v.1 with
      | true => simp
      | false =>
          simp only [Bool.false_eq_true, if_false, ih]
          cases vars.find? (fun v => isBlocked up v.1) <;> simp

end Blocked

/-! ## §3  What is started -/

section Started

variable {J : Type} {host : BashHost J} {up : Uppercase} {tool : BashTool} {arguments : J}
variable {args : BashArguments}

theorem execute_started (hargs : host.fromValue arguments = .ok args) :
    (tool.execute host up arguments).1 =
      if args.vars.any (fun v => isBlocked up v.1) then none
      else some ({ shell host args with envs := args.vars },
        args.timeoutSeconds.getD tool.timeoutSeconds) := by
  have hshell : (shell host args).envs = [] := by
    unfold shell
    split <;> rfl
  rw [BashTool.execute, hargs, ← List.isSome_find?]
  simp only [setEnv_eq, hshell, List.nil_append]
  cases args.vars.find? (fun v => isBlocked up v.1) <;> rfl

/-- A command is started only if all of its variables are safe. -/
def StartsSafely (host : BashHost J) (up : Uppercase) (tool : BashTool) (arguments : J) : Prop :=
  ∀ args started, host.fromValue arguments = .ok args →
    (tool.execute host up arguments).1 = some started → ∀ v ∈ args.vars, Safe up v.1

/-- **Commands are started safely exactly when no variable is a missed one**, or another one
of the same command is blocked. -/
theorem starts_safely_iff (host : BashHost J) (up : Uppercase) (tool : BashTool) (arguments : J) :
    StartsSafely host up tool arguments ↔
      ∀ args, host.fromValue arguments = .ok args →
        (∀ v ∈ args.vars, ¬ Missed up v.1) ∨ ∃ v ∈ args.vars, isBlocked up v.1 = true := by
  constructor
  · intro h args hargs
    by_cases hany : args.vars.any (fun v => isBlocked up v.1) = true
    · exact Or.inr (List.any_eq_true.mp hany)
    · refine Or.inl ?_
      intro v hv
      have hstarted : (tool.execute host up arguments).1 = _ := execute_started hargs
      rw [if_neg hany] at hstarted
      have hpass : isBlocked up v.1 = false := by
        rw [Bool.not_eq_true, List.any_eq_false] at hany
        exact eq_false_of_ne_true (hany v hv)
      exact (safe_iff hpass).mp (h args _ hargs hstarted v hv)
  · intro h args started hargs hstarted v hv
    rw [execute_started hargs] at hstarted
    split at hstarted
    · cases hstarted
    · rename_i hany
      rw [Bool.not_eq_true, List.any_eq_false] at hany
      rcases h args hargs with hmissed | ⟨v', hv', hblocked⟩
      · exact (safe_iff (eq_false_of_ne_true (hany v hv))).mpr (hmissed v hv)
      · exact absurd hblocked (hany v' hv')

/-- A host that takes arguments as they are. -/
def plainHost : BashHost BashArguments := ⟨false, .ok, fun _ _ => .output "" "" (some 0)⟩

/-- A proxy and a function for the shell get through. -/
theorem proxy_is_started :
    ¬ StartsSafely plainHost .exactAscii .new
        ⟨"curl example.org", none, none, some (HashMap.ofEntries [("http_proxy", "10.0.0.9:80")])⟩ ∧
      ¬ StartsSafely plainHost .exactAscii .new
        ⟨"ls", none, none,
          some (HashMap.ofEntries [("BASH_FUNC_ls%%", "() \x7b id; \x7d")])⟩ := by
  constructor
  · intro h
    exact (h _ _ rfl rfl ("http_proxy", "10.0.0.9:80") (by decide)).1 "http_proxy" (by decide) rfl
  · intro h
    have hnone := (h _ _ rfl rfl ("BASH_FUNC_ls%%", "() \x7b id; \x7d") (by decide)).2
      "BASH_FUNC_" (by decide)
    revert hnone
    decide

end Started

end Oclaw.ToolsCore
