import Loushang.Policy.WrapperOptions
import Mathlib.Data.List.DropRight

/-!
# Literal Git commands

`literal_git_commands` for a shell script of the `posix` dialect: `_split_commands`, `shlex.split`
and `_is_literal_git`. The other dialects and commands without a script are left out.
-/
namespace Loushang.Policy
open Lib Shlex

/-- `str.casefold` and `str.lower`. -/
structure Casing where
  casefold : Text → Text
  lower : Text → Text

/-! ## Groups -/

/-- `text.strip()`. -/
def strip (text : Text) : Text :=
  (text.dropWhile fun c : CodePoint => isSpaceCode c).rdropWhile fun c : CodePoint => isSpaceCode c

/-- `text.rstrip()`. -/
def rstrip (text : Text) : Text := text.rdropWhile fun c : CodePoint => isSpaceCode c

def endsWith (text back : Text) : Bool := back.isSuffixOf text

/-- A group closed by a separator; a blank one is passed over at the end of a line only. -/
def closeGroup (group : Text) (line : Bool) : Option (List Text) :=
  if strip group = [] then if line then some [] else none else some [strip group]

/-- The groups from a place on, `group` being what stands before it in its group. -/
def splitFrom : Option CodePoint → Text → Text → Option (List Text)
  | some _, _, [] => none
  | none, group, [] => some (if strip group = [] then [] else [strip group])
  | some quote, group, c :: rest =>
    if quote = doubleQuote && (c = code '`' || c = code '$') then none
    else if c = quote then splitFrom none (group ++ [c]) rest
    else if c = backslash && quote = doubleQuote then
      match rest with
      | [] => none
      | next :: more => splitFrom (some quote) (group ++ [c, next]) more
    else splitFrom (some quote) (group ++ [c]) rest
  | none, group, c :: rest =>
    if c = doubleQuote || c = singleQuote then splitFrom (some c) (group ++ [c]) rest
    else if c ∈ textOf "`$<>#()\x7b\x7d" then none
    else if c = backslash then
      match rest with
      | [] => splitFrom none (group ++ [c]) []
      | next :: more => splitFrom none (group ++ [c, next]) more
    else if c ∈ textOf ";&|\r\n" then
      if c = code '&' && rest.head? ≠ some (code '&') then none
      else
        (closeGroup group (c ∈ textOf "\r\n")).bind fun closed =>
          Option.map (closed ++ ·) <| match rest with
            | [] => splitFrom none [] []
            | next :: more =>
              if [c, next] ∈ ["&&", "||", "\r\n"].map textOf then splitFrom none [] more
              else splitFrom none [] (next :: more)
    else splitFrom none (group ++ [c]) rest

/-- `_split_commands(script, "posix")`. -/
def splitCommands (script : Text) : Option (List Text) := do
  let groups ← splitFrom none [] script
  if endsWith (rstrip script) (textOf "&&") || endsWith (rstrip script) (textOf "||") then none
  else if groups = [] then none
  else some groups

/-! ## Git -/

def builtins : List Text :=
  ["add", "am", "annotate", "apply", "archive", "bisect", "blame", "branch", "bundle", "cat-file", "check-attr",
    "check-ignore", "check-mailmap", "check-ref-format", "checkout", "checkout-index", "cherry", "cherry-pick",
    "clean", "clone", "column", "commit", "commit-graph", "commit-tree", "config", "count-objects", "describe",
    "diff", "diff-files", "diff-index", "diff-tree", "difftool", "fast-export", "fast-import", "fetch",
    "fetch-pack", "fmt-merge-msg", "for-each-ref", "format-patch", "fsck", "fsck-objects", "gc",
    "get-tar-commit-id", "grep", "hash-object", "help", "index-pack", "init", "init-db", "interpret-trailers",
    "log", "ls-files", "ls-remote", "ls-tree", "mailinfo", "mailsplit", "merge", "merge-file", "merge-tree",
    "merge-base", "mergetool", "mv", "name-rev", "notes", "prune", "pull", "push", "range-diff", "read-tree",
    "rebase", "mktag", "mktree", "pack-objects", "pack-refs", "patch-id", "reflog", "remote", "repack", "replace",
    "rerere", "reset", "restore", "revert", "rev-list", "rev-parse", "rm", "shortlog", "show", "show-branch",
    "show-index", "show-ref", "sparse-checkout", "stage", "stash", "status", "stripspace", "submodule", "switch",
    "symbolic-ref", "tag", "unpack-file", "unpack-objects", "update-index", "update-ref", "var", "verify-commit",
    "verify-pack", "verify-tag", "version", "whatchanged", "worktree", "write-tree"].map textOf

def literalValueOptions : List Text := ["-C", "--git-dir", "--namespace", "--work-tree"].map textOf

def flagOptions : List Text :=
  ["--bare", "--no-pager", "--paginate", "--no-optional-locks", "--literal-pathspecs", "--glob-pathspecs",
    "--noglob-pathspecs", "--icase-pathspecs", "--no-replace-objects", "--no-lazy-fetch"].map textOf

def dataConfigKeys : List Text :=
  ["core.quotepath", "core.autocrlf", "core.eol", "core.filemode", "core.longpaths", "core.precomposeunicode",
    "safe.directory", "commit.gpgsign", "tag.gpgsign", "diff.mnemonicprefix"].map textOf

section
variable (casing : Casing)

/-- The first token of a command names Git. -/
def namesGit (tokens : Command) : Bool :=
  tokens.head?.any fun token =>
    casing.casefold (basename (token.map fun c => if c = backslash then code '/' else c)) ∈
      ["git", "git.exe"].map textOf

/-- A configuration that only sets data, or an editor that does nothing. -/
def harmlessConfig (operand : Text) : Bool :=
  let key := casing.lower (partition operand).1
  key ∈ dataConfigKeys || startsWith key (textOf "color.") || startsWith key (textOf "advice.") ||
    key ∈ ["core.editor", "sequence.editor"].map textOf && (partition operand).2.2 ∈ ["true", ":"].map textOf

/-- The loop of `_is_literal_git` over the arguments. -/
def literalArguments : List Text → Bool
  | [] => false
  | value :: arguments =>
    let attached := (startsWith value (textOf "-C") || startsWith value (textOf "-c")) && 2 < value.length
    let option := if attached then value.take 2 else (partition value).1
    let separator := attached || (partition value).2.1
    let operand := if attached then value.drop 2 else (partition value).2.2
    if option ∈ textOf "-c" :: literalValueOptions then
      if separator then (option ≠ textOf "-c" || harmlessConfig casing operand) && literalArguments arguments
      else match arguments with
        | [] => false
        | operand :: rest => (option ≠ textOf "-c" || harmlessConfig casing operand) && literalArguments rest
    else if value ∈ flagOptions then literalArguments arguments
    else if value ∈ ["--version", "-v"].map textOf then arguments.isEmpty
    else value ∈ builtins

def isLiteralGit (tokens : Command) : Bool := namesGit casing tokens && literalArguments casing (tokens.drop 1)

/-- The words of a group; nothing where they cannot be split or are none. -/
def groupTokens (group : Text) : Option Command :=
  match Shlex.split group with
  | .error _ => none
  | .ok [] => none
  | .ok tokens => some tokens

/-- The commands of a script as the recognizer reads them. -/
def recognizedCommands (script : Text) : Option (List Command) := do
  let groups ← splitCommands script
  let parsed ← groups.mapM groupTokens
  if parsed.all (isLiteralGit casing) then some parsed else none

/-- `literal_git_commands` of a script: the arguments of each command. -/
def literalGitCommands (script : Text) : Option (List Command) :=
  (recognizedCommands casing script).map fun parsed => parsed.map fun tokens => tokens.drop 1

end

end Loushang.Policy
