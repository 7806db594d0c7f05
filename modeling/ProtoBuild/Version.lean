import ProtoBuild.Text.Digit
import ProtoBuild.Text.Split

/-!
# Versions that name their branch

The version of an artifact is a base version, a hyphen and a suffix made from
the branch it was built on.  `branchSuffix` reduces a branch name to a suffix that
is always legal: between one and thirty characters of `suffixChar`, in lower case,
without a hyphen at either end and without two hyphens in a row.
-/

namespace ProtoBuild
namespace Version

/-- Beginnings of branch names that say nothing about the branch. -/
def branchKinds : List (List Char) :=
  ["feature/".toList, "bugfix/".toList, "hotfix/".toList, "release/".toList,
   "develop/".toList]

/-- The longest suffix a branch may give. -/
def maxSuffix : Nat := 30

/-- The branch assumed when none is known. -/
def defaultBranch : String := "main"

/-- The characters a version suffix may have. -/
def suffixChar (c : Char) : Bool :=
  Text.isAsciiAlphanumeric c || c == '.' || c == '_' || c == '-'

/-- The branch name without the first of `branchKinds` that it begins with. -/
def withoutKind (branch : List Char) : List Char :=
  (branchKinds.findSome? fun kind => Text.after? kind branch).getD branch

/-- Hyphens at the front, and all but the first of each run of hyphens, are left
out.  `afterHyphen` says that a hyphen here would be one of those. -/
def collapse (afterHyphen : Bool) : List Char → List Char
  | [] => []
  | c :: cs =>
    if c == '-' then
      if afterHyphen then collapse true cs else '-' :: collapse true cs
    else c :: collapse false cs

/-- The text without the hyphens it ends with. -/
def trimHyphens (cs : List Char) : List Char :=
  (cs.reverse.dropWhile (· == '-')).reverse

/-- The suffix a branch name gives, as a text. -/
def suffixChars (branch : List Char) : List Char :=
  let legal := (withoutKind branch).map fun c => if suffixChar c then c else '-'
  let cut := trimHyphens ((trimHyphens (collapse true legal)).take maxSuffix)
  if cut.isEmpty then "unknown".toList else cut.map Char.toLower

/-- The suffix a branch name gives. -/
def branchSuffix (branch : String) : String :=
  String.ofList (suffixChars branch.toList)

/-- The version of what is built on a branch; an unnamed branch counts as the
default one. -/
def onBranch (base branch : String) : String :=
  base ++ "-" ++ branchSuffix (if branch.isEmpty then defaultBranch else branch)

/-- What stands before and after the last hyphen, if a dotted version stands
before it. -/
def parts? (version : String) : Option (List Char × List Char) :=
  match Text.splitLast? '-' version.toList with
  | some (base, suffix) => if base.contains '.' then some (base, suffix) else none
  | none => none

/-- The version without its branch suffix; unchanged if it has none. -/
def base (version : String) : String :=
  match parts? version with
  | some (base, _) => String.ofList base
  | none => version

/-- The branch suffix of a version, if it has one. -/
def branch? (version : String) : Option String :=
  match parts? version with
  | some (_, suffix) => if suffix.isEmpty then none else some (String.ofList suffix)
  | none => none

/-- Three non-empty runs of digits with dots between them. -/
def isCore (cs : List Char) : Bool :=
  let numbers := Text.splitOn '.' cs
  numbers.length == 3 && numbers.all fun n => ! n.isEmpty && n.all Text.isAsciiDigit

/-- Three numbers, and after a hyphen possibly a suffix of legal characters. -/
def isValid (version : String) : Bool :=
  match Text.splitFirst? '-' version.toList with
  | none => isCore version.toList
  | some (core, suffix) => isCore core && ! suffix.isEmpty && suffix.all suffixChar

end Version
end ProtoBuild
